/-
**Which elements of its arrays the driver uses.**

The device numbers of `fs.h` are for two drives, `hdd_info` has room for one.

* `hddOpen_inArrays`, `hddReadWrite_fits`, `serve_fits` — for a device of drive 0 every element used is
  in its array, and a minor number is looked up where `DEV_TO_DRV` puts it.
* `device_lookup_iff` — **a request keeps to the arrays exactly when its device is of drive 0**, or
  the code comes to no array.
-/

import WalOS.Hdd.Address

namespace WalOS

open Block

variable {env : HddEnv} {s : Hdd} {msg : Message} {p : Partition}

/-! ### Device numbers -/

/-- `MAX_SUBPARTITIONS`. -/
def maxSubpartitions : Int := 128

/-- The layout of `fs.h`: `hd0` to `hd9`, and `hd1a` to `hd9p`. -/
def InLayout (dev : Int) : Prop :=
  0 ≤ dev ∧ dev ≤ maxPrim ∨ minorHd1a ≤ dev ∧ dev < minorHd1a + maxSubpartitions

/-- The minor numbers of drive 0. -/
theorem exists_minor {dev : Int} (layout : InLayout dev) (master : devToDrv dev = 0) :
    ∃ p : Partition, p.minor = dev := by
  unfold InLayout maxPrim minorHd1a maxSubpartitions at layout
  unfold devToDrv maxPrim minorHd1a at master
  rcases layout with ⟨low, high⟩ | ⟨low, high⟩
  · rw [if_pos high] at master
    have quotient : dev / 5 = 0 := (Int.tdiv_eq_ediv_of_nonneg low).symm.trans master
    by_cases whole : dev = 0
    · exact ⟨.whole, whole.symm⟩
    · refine ⟨.primary ⟨(dev - 1).toNat, show (dev - 1).toNat < 4 by omega⟩, ?_⟩
      show ((dev - 1).toNat : Int) + 1 = dev
      omega
  · rw [if_neg (by omega)] at master
    have quotient : (dev - 16) / 64 = 0 :=
      (Int.tdiv_eq_ediv_of_nonneg (by omega)).symm.trans master
    let place := (dev - 16).toNat
    have column : place % 16 < 16 := Nat.mod_lt place (by decide)
    refine ⟨.logical ⟨place / 16, show place / 16 < 4 by omega⟩ ⟨place % 16, column⟩, ?_⟩
    rw [minor_logical]
    show (16 : Int) + ((16 * (place / 16) + place % 16 : ℕ) : Int) = dev
    omega

/-! ### Elements -/

/-- The element is in its array. -/
def HddEvent.InArrays : HddEvent → Prop
  | .index .hddInfo i => i = 0
  | .index .primary i => 0 ≤ i ∧ i < nrPrimPerDrive
  | .index .logical i => 0 ≤ i ∧ i < nrSubPerDrive
  | _ => True

/-- The minor number of the request is looked up. -/
def Message.LooksUp (msg : Message) : Prop :=
  msg.type = msgDevRead ∨ msg.type = msgDevWrite ∨ msg.type = msgDevIoControl

/-- The element is the one that `DEV_TO_DRV` goes by. -/
def HddEvent.Agrees (dev : Int) : HddEvent → Prop
  | .index .primary i => dev ≤ maxPrim ∧ i = dev.tmod nrPrimPerDrive
  | .index .logical _ => maxPrim < dev
  | _ => True

/-- **The element is in its array**, and a look-up of the minor number agrees with `DEV_TO_DRV`. -/
def HddEvent.Fits (msg : Message) (event : HddEvent) : Prop :=
  event.InArrays ∧ (msg.LooksUp → event.Agrees msg.device)

theorem HddEvent.Moves.fits {event : HddEvent} (moves : event.Moves) : event.Fits msg := by
  cases event with
  | index array i => exact moves.elim
  | _ => exact ⟨trivial, fun _ => trivial⟩

/-- The slot of a partition. -/
theorem slot_fits (p : Partition) (device : msg.device = p.minor) : p.slot.event.Fits msg := by
  cases p with
  | whole => exact ⟨⟨le_refl _, by decide⟩, fun _ => device ▸ ⟨by decide, rfl⟩⟩
  | primary i =>
    have all : ∀ i : Fin nrPartPerDrive, (((i : ℕ) + 1 : ℕ) : Int) < nrPrimPerDrive ∧
        (Partition.primary i).minor ≤ maxPrim ∧
        (((i : ℕ) + 1 : ℕ) : Int) = (Partition.primary i).minor.tmod nrPrimPerDrive := by decide
    exact ⟨⟨Int.natCast_nonneg _, (all i).1⟩, fun _ => device ▸ (all i).2⟩
  | logical i k =>
    refine ⟨⟨Int.natCast_nonneg _, Int.ofNat_lt.mpr (Partition.place_lt i k)⟩, fun _ => ?_⟩
    exact device ▸ maxPrim_lt_logical i k

/-! ### Opening -/

theorem hddCmdOut_inArrays (cmd : HddCmd) (s : Hdd) :
    (hddCmdOut env cmd s).Logs HddEvent.InArrays :=
  .bind (.bind .check fun _ => .pure _) fun _ => .bind (.touch trivial) fun _ => .pure _

theorem receiveInterrupt_inArrays (s : Hdd) : (receiveInterrupt env s).Logs HddEvent.InArrays :=
  .bind (.touch trivial) fun _ => .check

theorem readPort_inArrays (buf : Addr) (s : Hdd) :
    (readPort buf sectorSize s).Logs HddEvent.InArrays :=
  .bind (.touch trivial) fun _ => .pure _

theorem hddInfoAt_inArrays : (hddInfoAt 0).Logs HddEvent.InArrays :=
  .bind (.touch rfl) fun _ => .check

theorem primaryAt_inArrays {i : Int} (inside : 0 ≤ i ∧ i < nrPrimPerDrive) :
    (primaryAt i).Logs HddEvent.InArrays := by
  refine .bind (.touch inside) fun _ => ?_
  rw [dif_pos inside]
  exact .pure _

theorem logicalAt_inArrays {i : Int} (inside : 0 ≤ i ∧ i < nrSubPerDrive) :
    (logicalAt i).Logs HddEvent.InArrays := by
  refine .bind (.touch inside) fun _ => ?_
  rw [dif_pos inside]
  exact .pure _

theorem handleIdentify_inArrays (s : Hdd) : (handleIdentify env 0 s).Logs HddEvent.InArrays :=
  .bind (hddCmdOut_inArrays _ _) fun _ => .bind (receiveInterrupt_inArrays _) fun _ =>
    .bind (readPort_inArrays _ _) fun _ => .bind hddInfoAt_inArrays fun _ =>
    .bind (primaryAt_inArrays ⟨le_refl _, by decide⟩) fun _ => .pure _

theorem getPartitionTable_inArrays (sector : BitVec 32) (s : Hdd) :
    (getPartitionTable env 0 sector s).Logs HddEvent.InArrays :=
  .bind (hddCmdOut_inArrays _ _) fun _ => .bind (receiveInterrupt_inArrays _) fun _ =>
    readPort_inArrays _ _

/-- The rounds over an extended partition, from round `i` on. -/
theorem extendedLoop_inArrays (row : Fin nrPartPerDrive) (start : BitVec 32) (left i : ℕ)
    (sector : BitVec 32) (s : Hdd) (rounds : i + left = nrSubPerPart) :
    (extendedLoop env 0 start ((16 * row : ℕ) : Int) left i sector s).Logs HddEvent.InArrays := by
  induction left generalizing i sector s with
  | zero => exact .pure s
  | succ left ih =>
    have place := Partition.place_lt row ⟨i, by omega⟩
    have inside : 0 ≤ ((16 * row : ℕ) : Int) + i ∧ ((16 * row : ℕ) : Int) + i < nrSubPerDrive :=
      ⟨Int.natCast_nonneg (16 * row + i), Int.ofNat_lt.mpr place⟩
    refine .bind (getPartitionTable_inArrays _ _) fun t => .bind hddInfoAt_inArrays fun _ =>
      .bind (logicalAt_inArrays inside) fun slot => ?_
    exact Traced.Sat.ite (fun _ => Traced.Logs.pure _) fun _ => ih (i + 1) _ _ (by omega)

theorem handleExtended_inArrays (row : Fin nrPartPerDrive) (s : Hdd) :
    (handleExtended env ((row : ℕ) + 1 : ℕ) s).Logs HddEvent.InArrays := by
  have inside : ∀ row : Fin nrPartPerDrive, 0 ≤ (((row : ℕ) + 1 : ℕ) : Int) ∧
      (((row : ℕ) + 1 : ℕ) : Int) < nrPrimPerDrive := by decide
  unfold handleExtended
  dsimp only
  rw [devToDrv_row, tmod_row, signature_row]
  exact .bind hddInfoAt_inArrays fun _ => .bind (primaryAt_inArrays (inside row)) fun _ =>
    extendedLoop_inArrays row _ _ 0 _ s rfl

theorem handlePartition_inArrays (s : Hdd) : (handlePartition env 0 s).Logs HddEvent.InArrays := by
  refine .bind (getPartitionTable_inArrays 0 s) fun t => .foldlM (fun i member u => ?_) t
  let row : Fin nrPartPerDrive := ⟨i, List.mem_range.mp member⟩
  have inside : ∀ row : Fin nrPartPerDrive, 0 ≤ ((row : ℕ) : Int) + 1 ∧
      ((row : ℕ) : Int) + 1 < nrPrimPerDrive := by decide
  have dev : (0 : Int) + ((i : ℕ) + 1) = ((row : ℕ) + 1 : ℕ) := Int.zero_add _
  refine Traced.Sat.ite (fun _ => Traced.Logs.pure u) fun _ => ?_
  refine Traced.Logs.bind hddInfoAt_inArrays fun _ =>
    .bind (primaryAt_inArrays (inside row)) fun slot => ?_
  refine Traced.Sat.ite (fun _ => ?_) fun _ => Traced.Logs.pure _
  rw [dev]
  exact handleExtended_inArrays row _

/-- **`hdd_open`** of a device of drive 0 keeps to the arrays. -/
theorem hddOpen_inArrays (p : Partition) (s : Hdd) :
    (hddOpen env p.minor s).Logs HddEvent.InArrays := by
  unfold hddOpen
  dsimp only
  rw [devToDrv_minor]
  exact .bind (handleIdentify_inArrays s) fun _ => .bind hddInfoAt_inArrays fun _ =>
    Traced.Sat.ite (fun _ => handlePartition_inArrays _) fun _ => Traced.Logs.pure _

/-! ### The other requests -/

theorem hddInfoAt_fits : (hddInfoAt 0).Logs (HddEvent.Fits msg) :=
  .bind (.touch ⟨rfl, fun _ => trivial⟩) fun _ => .check

theorem partitionAt_fits (device : msg.device = p.minor) :
    (partitionAt p.minor).Logs (HddEvent.Fits msg) :=
  (partitionAt_gives p).logs fun _ member => List.mem_singleton.mp member ▸ slot_fits p device

theorem hddReadWrite_fits (device : msg.device = p.minor) :
    (hddReadWrite env msg s).Logs (HddEvent.Fits msg) := by
  unfold hddReadWrite
  dsimp only
  rw [device, devToDrv_minor]
  refine .bind hddInfoAt_fits fun _ => .bind (partitionAt_fits device) fun slot => .bind ?_ fun t =>
    .bind (virToLinear_logs _ _) fun a => .loop (transferRound_logs fun _ moves => moves.fits) _ _
  exact .bind (.bind .check fun _ => .pure _) fun _ =>
    .bind (.touch ⟨trivial, fun _ => trivial⟩) fun _ => .pure _

theorem hddIoControl_fits (device : msg.device = p.minor) :
    (hddIoControl env msg s).Logs (HddEvent.Fits msg) := by
  unfold hddIoControl
  rw [device, devToDrv_minor]
  refine Traced.Sat.ite (fun _ => ?_) fun _ => Traced.Logs.pure s
  exact Traced.Logs.bind (virToLinear_logs _ _) fun a => .bind hddInfoAt_fits fun _ =>
    .bind (partitionAt_fits device) fun slot => .pure _

/-- The types of the requests. -/
def Message.Requests (msg : Message) : Prop :=
  msg.type = msgDevOpen ∨ msg.type = msgDevClose ∨ msg.LooksUp

/-- A request of any of the types keeps to the arrays, for a device of drive 0. -/
theorem serve_fits (device : msg.device = p.minor) :
    (serve env msg s).Logs (HddEvent.Fits msg) := by
  have opening : ∀ event : HddEvent, event.InArrays → ¬ msg.LooksUp → event.Fits msg :=
    fun _ inside other => ⟨inside, fun looks => absurd looks other⟩
  unfold serve
  refine Traced.Sat.ite (fun opens => ?_) fun _ => Traced.Sat.ite (fun closes => ?_) fun _ =>
    Traced.Sat.ite (fun _ => hddReadWrite_fits device) fun _ =>
    Traced.Sat.ite (fun _ => hddIoControl_fits device) fun _ => Traced.Logs.stop _
  · rw [device]
    refine (hddOpen_inArrays p s).mono fun event inside => opening event inside ?_
    unfold Message.LooksUp
    rw [opens]
    decide
  · rw [device, hddClose, devToDrv_minor]
    exact Traced.Logs.bind hddInfoAt_fits fun _ => .pure _

/-! ### Devices of the other drive -/

/-- The drive stays busy, or raises no interrupt for the command. -/
def HddEnv.Silent (env : HddEnv) (s : Hdd) : Prop :=
  env.status s.polls = false ∨ env.interrupt (s.polls + 1) = false

/-- The code comes to no array: the drive does not answer an open, the request is another control
function, or `vir_to_linear` stops. -/
def StopsBefore (env : HddEnv) (s : Hdd) (msg : Message) : Prop :=
  msg.type = msgDevOpen ∧ env.Silent s ∨
    msg.type = msgDevIoControl ∧ (msg.request ≠ dioctlGetGeo ∨
      msg.procNr < totalTaskCnt ∧ env.segBase msg.procNr + msg.buf ≠ msg.buf)

/-- `handle_identify` of a drive that does not answer stops before the arrays. -/
theorem handleIdentify_silent (drive : Int) (silent : env.Silent s) :
    (handleIdentify env drive s).Sat (HddEvent.Fits msg) (fun _ => False) (fun _ => True) := by
  let cmd : HddCmd := { env.staleCmd with
    device := makeCmdDevice 0 (BitVec.ofInt 32 drive) 0, command := ataIdentify }
  have taken : (hddCmdOut env cmd s).Sat (HddEvent.Fits msg)
      (fun t => env.status s.polls = true ∧ t.polls = s.polls + 1) (fun _ => True) := by
    have shown : (getStatus env .busy s).Sat (HddEvent.Fits msg)
        (fun t => env.status s.polls = true ∧ t.polls = s.polls + 1) (fun _ => True) :=
      .check_bind (fun _ => trivial) fun ready => .pure ⟨ready, rfl⟩
    exact shown.bind fun t found => .touch_bind ⟨trivial, fun _ => trivial⟩ (.pure found)
  refine taken.bind fun t ⟨ready, polls⟩ => ?_
  have waits : (receiveInterrupt env t).Sat (HddEvent.Fits msg) (fun _ => False) (fun _ => True) := by
    refine .touch_bind ⟨trivial, fun _ => trivial⟩ (.check (fun raised => ?_) fun _ => trivial)
    rw [polls] at raised
    rcases silent with busy | none
    · exact absurd (ready.symm.trans busy) (by decide)
    · exact absurd (raised.symm.trans none) (by decide)
  exact waits.bind fun _ never => never.elim

/-- Such a request uses no element at all. -/
theorem serve_stopsBefore (stops : StopsBefore env s msg) :
    (serve env msg s).Logs (HddEvent.Fits msg) := by
  rcases stops with ⟨opens, silent⟩ | ⟨controls, stops⟩
  · rw [serve, if_pos opens, hddOpen]
    exact (handleIdentify_silent _ silent).bind fun _ never => never.elim
  · have other : msg.type ≠ msgDevOpen ∧ msg.type ≠ msgDevClose ∧
        ¬ (msg.type = msgDevRead ∨ msg.type = msgDevWrite) := by
      rw [controls]
      decide
    rw [serve, if_neg other.1, if_neg other.2.1, if_neg other.2.2, if_pos controls, hddIoControl]
    by_cases asks : msg.request = dioctlGetGeo
    · obtain ⟨inside, moved⟩ := stops.resolve_left fun differs => differs asks
      have asserts : ¬ (msg.procNr < totalTaskCnt → env.segBase msg.procNr + msg.buf = msg.buf) :=
        fun flat => moved (flat inside)
      rw [if_pos asks, HddEnv.virToLinear, Traced.check, if_neg asserts]
      exact Traced.Logs.stop _
    · rw [if_neg asks]
      exact Traced.Logs.pure s

/-- The element of `hdd_info` that a device is of. -/
theorem mem_hddInfoAt (drive : Int) : HddEvent.index .hddInfo drive ∈ (hddInfoAt drive).accesses :=
  Traced.mem_bind_left List.mem_cons_self

/-- **Every request that comes to the arrays** uses the element of its drive. -/
theorem serve_uses_drive (request : msg.Requests) (goes : ¬ StopsBefore env s msg) :
    HddEvent.index .hddInfo (devToDrv msg.device) ∈ (serve env msg s).accesses := by
  unfold serve
  by_cases opens : msg.type = msgDevOpen
  · have ready : env.status s.polls = true := by
      by_contra never
      exact goes (.inl ⟨opens, .inl (Bool.eq_false_iff.mpr never)⟩)
    have raises : env.interrupt (s.polls + 1) = true := by
      by_contra never
      exact goes (.inl ⟨opens, .inr (Bool.eq_false_iff.mpr never)⟩)
    rw [if_pos opens, hddOpen, handleIdentify]
    dsimp only
    refine Traced.mem_bind_left (Traced.mem_bind_right (hddCmdOut_gives _ ready).outcome ?_)
    refine Traced.mem_bind_right (receiveInterrupt_gives raises).outcome ?_
    refine Traced.mem_bind_right (readPort_gives _ _).outcome ?_
    exact Traced.mem_bind_left (mem_hddInfoAt _)
  · rw [if_neg opens]
    by_cases closes : msg.type = msgDevClose
    · rw [if_pos closes]
      exact Traced.mem_bind_left (mem_hddInfoAt _)
    · rw [if_neg closes]
      by_cases transfers : msg.type = msgDevRead ∨ msg.type = msgDevWrite
      · rw [if_pos transfers]
        exact Traced.mem_bind_left (mem_hddInfoAt _)
      · have controls : msg.type = msgDevIoControl := by
          rcases request with here | here | read | write | here
          · exact absurd here opens
          · exact absurd here closes
          · exact absurd (.inl read) transfers
          · exact absurd (.inr write) transfers
          · exact here
        have asks : msg.request = dioctlGetGeo := by
          by_contra other
          exact goes (.inr ⟨controls, .inl other⟩)
        have flat : msg.procNr < totalTaskCnt → env.segBase msg.procNr + msg.buf = msg.buf := by
          intro inside
          by_contra moved
          exact goes (.inr ⟨controls, .inr ⟨inside, moved⟩⟩)
        rw [if_neg transfers, if_pos controls, hddIoControl, if_pos asks]
        have linear : (env.virToLinear msg.procNr msg.buf).outcome =
            .ok (env.segBase msg.procNr + msg.buf) := by
          rw [HddEnv.virToLinear, Traced.outcome_bind, Traced.outcome_check flat]
          rfl
        exact Traced.mem_bind_right linear (Traced.mem_bind_left (mem_hddInfoAt _))

/-- Every element that the request uses is in its array, and is the one that `DEV_TO_DRV` goes by. -/
def KeepsToArrays (env : HddEnv) (s : Hdd) (msg : Message) : Prop :=
  ∀ event ∈ (serve env msg s).accesses, event.Fits msg

/-- **Which requests keep to the arrays.** For every device number of the layout, every message and
every state: all elements used are in their arrays, and the minor number is looked up where
`DEV_TO_DRV` puts it, exactly when the device is of drive 0 or the code comes to no array. -/
theorem device_lookup_iff (env : HddEnv) (s : Hdd) (msg : Message) (request : msg.Requests)
    (layout : InLayout msg.device) :
    KeepsToArrays env s msg ↔ devToDrv msg.device = 0 ∨ StopsBefore env s msg := by
  constructor
  · intro all
    by_cases stops : StopsBefore env s msg
    · exact .inr stops
    · exact .inl (all _ (serve_uses_drive request stops)).1
  · rintro (master | stops)
    · obtain ⟨p, device⟩ := exists_minor layout master
      exact (serve_fits device.symm).access
    · exact (serve_stopsBefore stops).access

theorem device_lookup_logical : KeepsToArrays plainEnv blankHdd (diskRequest msgDevRead 79 512) :=
  (device_lookup_iff plainEnv blankHdd (diskRequest msgDevRead 79 512) (.inr (.inr (.inl rfl)))
    (.inr (by decide))).mpr (.inl (by decide))

/-- **The devices of the second drive are off `hdd_info`**: `hd5` is the first. -/
theorem device_lookup_second_drive :
    ¬ KeepsToArrays plainEnv blankHdd (diskRequest msgDevClose 5 0) := by
  intro all
  have inside : (1 : Int) = 0 := (all (.index .hddInfo 1) (by decide)).1
  exact absurd inside (by decide)

end WalOS
