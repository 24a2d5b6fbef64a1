/-
**Opening and closing the devices of drive 0.**

A `Session` is what matters of a history of requests: the open counter, whether a device has been
opened, and whether the partition table has been loaded.

* `serve_represents` — a request takes `hdd_info` as it takes the session; `serveAll_represents` — so
  does a sequence of them.
* `loaded_after_opens_iff` — **the table is loaded after every answered open exactly when the closes
  before the first one bring the counter back to 0**, or the disk has no partition to load.
-/

import WalOS.Hdd.Address

namespace WalOS

open Block

variable {env : HddEnv} {s t : Hdd} {disk : Space 37 (BitVec 8)} {ident : ℕ → BitVec 8}

/-! ### Sessions -/

structure Session where
  openCnt : BitVec 32
  opened : Bool
  loaded : Bool

namespace Session

def start : Session := ⟨0, false, false⟩

/-- A request of one of the two types. -/
def step (v : Session) (m : Message) : Session :=
  if m.type = msgDevOpen then ⟨v.openCnt + 1, true, v.loaded || decide (v.openCnt = 0)⟩
  else ⟨v.openCnt - 1, v.opened, v.loaded⟩

def run (v : Session) (msgs : List Message) : Session := msgs.foldl step v

theorem step_open {v : Session} {m : Message} (opens : m.type = msgDevOpen) :
    v.step m = ⟨v.openCnt + 1, true, v.loaded || decide (v.openCnt = 0)⟩ := if_pos opens

theorem step_close {v : Session} {m : Message} (closes : m.type ≠ msgDevOpen) :
    v.step m = ⟨v.openCnt - 1, v.opened, v.loaded⟩ := if_neg closes

theorem run_append (v : Session) (msgs msgs' : List Message) :
    v.run (msgs ++ msgs') = (v.run msgs).run msgs' := List.foldl_append

/-- What is loaded stays loaded. -/
theorem loaded_run {v : Session} (loaded : v.loaded = true) (msgs : List Message) :
    (v.run msgs).loaded = true := by
  induction msgs generalizing v with
  | nil => exact loaded
  | cons m msgs ih =>
    refine ih ?_
    unfold step
    split
    · rw [loaded, Bool.true_or]
    · exact loaded

/-- Closes only count down. -/
theorem run_closes {v : Session} {msgs : List Message} (closes : ∀ m ∈ msgs, m.type ≠ msgDevOpen) :
    v.run msgs = ⟨v.openCnt - BitVec.ofNat 32 msgs.length, v.opened, v.loaded⟩ := by
  induction msgs generalizing v with
  | nil => rw [List.length_nil, BitVec.sub_zero]; rfl
  | cons m msgs ih =>
    show (v.step m).run msgs = _
    rw [ih fun m' member => closes m' (List.mem_cons_of_mem m member),
      step_close (closes m List.mem_cons_self), BitVec.sub_sub, List.length_cons, Nat.add_comm,
      BitVec.ofNat_add]
    rfl

end Session

/-! ### The closes before the first open -/

/-- How many requests come before the first open. -/
def closesBefore (msgs : List Message) : ℕ :=
  (msgs.takeWhile fun m => decide (m.type ≠ msgDevOpen)).length

/-- The first open. -/
theorem first_open {msgs : List Message} (opens : ∃ m ∈ msgs, m.type = msgDevOpen) :
    ∃ closes m rest, msgs = closes ++ m :: rest ∧ (∀ m' ∈ closes, m'.type ≠ msgDevOpen) ∧
      m.type = msgDevOpen ∧ closesBefore msgs = closes.length := by
  induction msgs with
  | nil =>
    obtain ⟨m, member, -⟩ := opens
    exact absurd member List.not_mem_nil
  | cons m msgs ih =>
    unfold closesBefore
    by_cases here : m.type = msgDevOpen
    · refine ⟨[], m, msgs, rfl, fun _ member => absurd member List.not_mem_nil, here, ?_⟩
      rw [List.takeWhile_cons_of_neg (by simpa using here)]
    · obtain ⟨m', member, opensIt⟩ := opens
      have later : m' ∈ msgs := (List.mem_cons.mp member).resolve_left fun same => here (same ▸ opensIt)
      obtain ⟨closes, first, rest, split, before, first', count⟩ := ih ⟨m', later, opensIt⟩
      refine ⟨m :: closes, first, rest, congrArg (m :: ·) split, ?_, first', ?_⟩
      · intro m'' member'
        rcases List.mem_cons.mp member' with rfl | behind
        · exact here
        · exact before m'' behind
      · rw [List.takeWhile_cons_of_pos (by simpa using here), List.length_cons, List.length_cons]
        exact congrArg (· + 1) count

/-- A longer sequence has the same first open. -/
theorem closesBefore_append {msgs : List Message} (opens : ∃ m ∈ msgs, m.type = msgDevOpen)
    (rest : List Message) : closesBefore (msgs ++ rest) = closesBefore msgs := by
  induction msgs with
  | nil =>
    obtain ⟨m, member, -⟩ := opens
    exact absurd member List.not_mem_nil
  | cons m msgs ih =>
    unfold closesBefore at ih ⊢
    rw [List.cons_append]
    by_cases here : m.type = msgDevOpen
    · rw [List.takeWhile_cons_of_neg (by simpa using here),
        List.takeWhile_cons_of_neg (by simpa using here)]
    · obtain ⟨m', member, opensIt⟩ := opens
      have later : m' ∈ msgs := (List.mem_cons.mp member).resolve_left fun same => here (same ▸ opensIt)
      rw [List.takeWhile_cons_of_pos (by simpa using here),
        List.takeWhile_cons_of_pos (by simpa using here), List.length_cons, List.length_cons,
        ih ⟨m', later, opensIt⟩]

/-- At the first open the counter is the closes before it, counted down from 0. -/
theorem Session.run_first {closes : List Message} (before : ∀ m ∈ closes, m.type ≠ msgDevOpen)
    {m : Message} (opens : m.type = msgDevOpen) :
    (start.run (closes ++ [m])).loaded = decide (2 ^ 32 ∣ closes.length) := by
  have zero : (0 : BitVec 32) - BitVec.ofNat 32 closes.length = 0 ↔ 2 ^ 32 ∣ closes.length := by
    show 0#32 - BitVec.ofNat 32 closes.length = 0#32 ↔ _
    rw [Nat.dvd_iff_mod_eq_zero, BitVec.sub_eq_iff_eq_add, BitVec.zero_add, eq_comm,
      BitVec.toNat_eq, BitVec.toNat_ofNat]
    rfl
  rw [run_append, run_closes before]
  show (Session.step _ m).loaded = _
  rw [step_open opens]
  exact decide_eq_decide.mpr zero

theorem Session.loaded_of_dvd {msgs : List Message} (opens : ∃ m ∈ msgs, m.type = msgDevOpen)
    (back : 2 ^ 32 ∣ closesBefore msgs) : (start.run msgs).loaded = true := by
  obtain ⟨closes, m, rest, rfl, before, first, count⟩ := first_open opens
  rw [count] at back
  have split : closes ++ m :: rest = (closes ++ [m]) ++ rest := (List.append_cons closes m rest)
  rw [split, run_append]
  exact loaded_run ((run_first before first).trans (decide_eq_true back)) rest

/-- After an open, a device has been opened. -/
theorem Session.opened_run (msgs : List Message) {m : Message} (opens : m.type = msgDevOpen) :
    (start.run (msgs ++ [m])).opened = true := by
  rw [run_append]
  show (Session.step _ m).opened = true
  rw [step_open opens]

/-! ### What the table holds -/

/-- What loading makes of a cleared entry. -/
def loadedInfo (disk : Space 37 (BitVec 8)) (ident : ℕ → BitVec 8) (p : Partition) : PartitionInfo :=
  if p = .whole then identInfo ident else (found disk p).getD ⟨0, 0⟩

/-- What the table holds after a history. -/
def Session.entry (v : Session) (disk : Space 37 (BitVec 8)) (ident : ℕ → BitVec 8) (p : Partition) :
    PartitionInfo :=
  if (if p = .whole then v.opened else v.loaded) then loadedInfo disk ident p else ⟨0, 0⟩

/-- **The state after a history of requests.** -/
structure Session.Represents (v : Session) (disk : Space 37 (BitVec 8)) (ident : ℕ → BitVec 8)
    (s : Hdd) : Prop where
  openCnt : s.info.openCnt = v.openCnt
  part : ∀ p : Partition, s.info.part p.slot = v.entry disk ident p
  disk : s.drive.disk = disk
  ident : s.drive.ident = ident

/-- A request to open or close a device of drive 0. -/
structure Message.OpensOrCloses (m : Message) : Prop where
  type : m.type = msgDevOpen ∨ m.type = msgDevClose
  device : ∃ p : Partition, m.device = p.minor

/-- **`hdd_open`** fills the entry of the whole disk, and all others when the counter is 0. -/
theorem hddOpen_gives (responds : env.Responsive) (p : Partition) (s : Hdd) :
    ∃ log t, (hddOpen env p.minor s).Gives log t ∧ t.info.openCnt = s.info.openCnt + 1 ∧
      (∀ q : Partition, t.info.part q.slot =
        if q = .whole then identInfo s.drive.ident
        else if s.info.openCnt = 0 then (found s.drive.disk q).getD (s.info.part q.slot)
        else s.info.part q.slot) ∧
      t.drive.disk = s.drive.disk ∧ t.drive.ident = s.drive.ident := by
  obtain ⟨log, u, identifies, -, whole⟩ := handleIdentify_fills responds s
  let counted : Hdd := { u with info := { u.info with openCnt := u.info.openCnt + 1 } }
  have reaches : ∀ {log' t}, (if u.info.openCnt = 0 then handlePartition env 0 counted
      else pure counted).Gives log' t →
      (hddOpen env p.minor s).Gives (log ++ ([.index .hddInfo 0] ++ log')) t := by
    intro log' t rest
    unfold hddOpen
    dsimp only
    rw [devToDrv_minor]
    exact identifies.bind (hddInfoAt_gives.bind rest)
  by_cases first : u.info.openCnt = 0
  · obtain ⟨log', t, loads, -, fills⟩ := handlePartition_fills responds counted
    refine ⟨_, t, reaches (by rw [if_pos first]; exact loads), ?_, ?_, ?_, ?_⟩
    · rw [fills.openCnt, ← whole.openCnt]
    · intro q
      rw [fills.part, ← whole.openCnt, if_pos first]
      show (found u.drive.disk q).getD (u.info.part q.slot) = _
      rw [whole.part, whole.disk]
      by_cases same : q = .whole
      · subst same
        rfl
      · rw [if_neg same, if_neg same, Option.getD_none]
    · rw [fills.disk, ← whole.disk]
    · rw [fills.ident, ← whole.ident]
  · refine ⟨_, counted, reaches (by rw [if_neg first]; exact .pure _), ?_, ?_, whole.disk, whole.ident⟩
    · rw [← whole.openCnt]
    · intro q
      show u.info.part q.slot = _
      rw [whole.part, ← whole.openCnt, if_neg first]
      by_cases same : q = .whole
      · rw [if_pos same, if_pos same, Option.getD_some]
      · rw [if_neg same, if_neg same, Option.getD_none]

/-- **A request** takes the table as it takes the session. -/
theorem serve_represents (responds : env.Responsive) {v : Session} (holds : v.Represents disk ident s)
    {m : Message} (request : m.OpensOrCloses) :
    ∃ log t, (serve env m s).Gives log t ∧ (v.step m).Represents disk ident t := by
  obtain ⟨p, device⟩ := request.device
  by_cases opens : m.type = msgDevOpen
  · obtain ⟨log, t, gives, openCnt, part, disk', ident'⟩ := hddOpen_gives responds p s
    refine ⟨log, t, ?_, ?_⟩
    · rw [serve, if_pos opens, device]
      exact gives
    · rw [Session.step_open opens]
      refine ⟨?_, fun q => ?_, disk'.trans holds.disk, ident'.trans holds.ident⟩
      · rw [openCnt, holds.openCnt]
      · rw [part, holds.part, holds.openCnt, holds.disk, holds.ident]
        unfold Session.entry loadedInfo
        by_cases whole : q = .whole
        · simp only [if_pos whole, if_true]
        · by_cases zero : v.openCnt = 0 <;> cases v.loaded <;>
            cases found disk q <;> simp [whole, zero]
  · have closes : m.type = msgDevClose := request.type.resolve_left opens
    let t : Hdd := { s with info := { s.info with openCnt := s.info.openCnt - 1 } }
    refine ⟨[.index .hddInfo 0], t, ?_, ?_⟩
    · rw [serve, if_neg opens, if_pos closes, device, hddClose, devToDrv_minor]
      exact hddInfoAt_gives.bind (.pure _)
    · rw [Session.step_close opens]
      exact ⟨congrArg (· - 1) holds.openCnt, holds.part, holds.disk, holds.ident⟩

/-- The requests are served one after the other. -/
def serveAll (env : HddEnv) (msgs : List Message) (s : Hdd) : HddRun Hdd :=
  msgs.foldlM (fun s m => serve env m s) s

/-- **A sequence of requests** takes the table as it takes the session. -/
theorem serveAll_represents (responds : env.Responsive) {msgs : List Message} {v : Session}
    (holds : v.Represents disk ident s) (requests : ∀ m ∈ msgs, m.OpensOrCloses) :
    ∃ log t, (serveAll env msgs s).Gives log t ∧ (v.run msgs).Represents disk ident t := by
  induction msgs generalizing v s with
  | nil => exact ⟨[], s, .pure s, holds⟩
  | cons m msgs ih =>
    obtain ⟨log, t, gives, holds'⟩ := serve_represents responds holds (requests m List.mem_cons_self)
    obtain ⟨log', u, rest, holds''⟩ :=
      ih holds' fun m' member => requests m' (List.mem_cons_of_mem m member)
    refine ⟨log ++ log', u, ?_, holds''⟩
    rw [serveAll, List.foldlM_cons]
    exact gives.bind rest

/-- The driver starts with the table cleared. -/
theorem start_represents (cleared : s.info = .zero) :
    Session.start.Represents s.drive.disk s.drive.ident s where
  openCnt := by rw [cleared]; rfl
  part p := by
    rw [cleared]
    refine (if_neg ?_).symm
    split <;> exact Bool.false_ne_true
  disk := rfl
  ident := rfl

/-! ### After every open -/

/-- **The table is loaded**: the whole disk as it identifies itself, the other partitions as the
partition tables on the disk have them, and nothing where they have none. -/
def Hdd.Loaded (s : Hdd) : Prop :=
  ∀ p : Partition, s.info.part p.slot = loadedInfo s.drive.disk s.drive.ident p

/-- Every open is answered, with the table loaded. -/
def LoadedAfterOpens (env : HddEnv) (msgs : List Message) (s : Hdd) : Prop :=
  ∀ before m, before ++ [m] <+: msgs → m.type = msgDevOpen →
    ∃ log t, (serveAll env (before ++ [m]) s).Gives log t ∧ t.Loaded

/-- The disk has partitions in none of its tables, or empty ones at sector 0. -/
def NothingToLoad (disk : Space 37 (BitVec 8)) : Prop :=
  ∀ p : Partition, (found disk p).getD ⟨0, 0⟩ = ⟨0, 0⟩

theorem Session.Represents.loaded_iff {v : Session} (holds : v.Represents disk ident t)
    (opened : v.opened = true) : t.Loaded ↔ v.loaded = true ∨ NothingToLoad disk := by
  unfold Hdd.Loaded
  rw [holds.disk, holds.ident]
  constructor
  · intro all
    by_cases loaded : v.loaded = true
    · exact .inl loaded
    · refine .inr fun p => ?_
      by_cases whole : p = .whole
      · rw [whole]
        rfl
      · have here := (holds.part p).symm.trans (all p)
        rw [Session.entry, if_neg whole, if_neg loaded, loadedInfo, if_neg whole] at here
        exact here.symm
  · intro either p
    rw [holds.part, Session.entry, loadedInfo]
    by_cases whole : p = .whole
    · rw [if_pos whole, if_pos whole, if_pos opened]
    · rw [if_neg whole, if_neg whole]
      rcases either with loaded | nothing
      · rw [if_pos loaded]
      · rw [nothing p, ite_self]

/-- What the last open of a sequence leaves. -/
theorem serveAll_loaded_iff (responds : env.Responsive) (cleared : s.info = .zero)
    {before : List Message} {m : Message} (requests : ∀ m' ∈ before ++ [m], m'.OpensOrCloses)
    (opens : m.type = msgDevOpen) : ∃ log t, (serveAll env (before ++ [m]) s).Gives log t ∧
      (t.Loaded ↔ (Session.start.run (before ++ [m])).loaded = true ∨ NothingToLoad s.drive.disk) := by
  obtain ⟨log, t, gives, holds⟩ := serveAll_represents responds (start_represents cleared) requests
  exact ⟨log, t, gives, holds.loaded_iff (Session.opened_run before opens)⟩

/-- **The table is loaded after every answered open if and only if** no device is opened, the closes
before the first open count the counter down to 0 again, or there is nothing to load. -/
theorem loaded_after_opens_iff (env : HddEnv) (msgs : List Message) (s : Hdd)
    (responds : env.Responsive) (cleared : s.info = .zero)
    (requests : ∀ m ∈ msgs, m.OpensOrCloses) : LoadedAfterOpens env msgs s ↔
      (∀ m ∈ msgs, m.type ≠ msgDevOpen) ∨ 2 ^ 32 ∣ closesBefore msgs ∨
        NothingToLoad s.drive.disk := by
  constructor
  · intro all
    by_cases opens : ∃ m ∈ msgs, m.type = msgDevOpen
    · obtain ⟨closes, m, rest, rfl, before, first, count⟩ := first_open opens
      have split : closes ++ [m] <+: closes ++ m :: rest := ⟨rest, (List.append_cons closes m rest).symm⟩
      obtain ⟨log, t, gives, loaded⟩ := all closes m split first
      obtain ⟨log', t', gives', iff⟩ := serveAll_loaded_iff responds cleared
        (fun m' member => requests m' (split.subset member)) first
      have same : t = t' := Except.ok.inj (gives.outcome.symm.trans gives'.outcome)
      rw [count]
      refine .inr ((iff.mp (same ▸ loaded)).imp_left fun here => ?_)
      rw [Session.run_first before first] at here
      exact of_decide_eq_true here
    · exact .inl fun m member here => opens ⟨m, member, here⟩
  · intro either before m part opens
    obtain ⟨log, t, gives, iff⟩ := serveAll_loaded_iff responds cleared
      (fun m' member => requests m' (part.subset member)) opens
    have last : ∃ m' ∈ before ++ [m], m'.type = msgDevOpen :=
      ⟨m, List.mem_append_right before (List.mem_singleton_self m), opens⟩
    refine ⟨log, t, gives, iff.mpr ?_⟩
    rcases either with none | back | nothing
    · exact absurd opens (none m (part.subset (List.mem_append_right before (List.mem_singleton_self m))))
    · obtain ⟨rest, rfl⟩ := part
      rw [closesBefore_append last] at back
      exact .inl (Session.loaded_of_dvd last back)
    · exact .inr nothing

/-- The driver after `hdd_init`, with one partition on the disk: sector 1, of type 1. -/
def partitionedHdd : Hdd :=
  { blankHdd with drive := { blankHdd.drive with
      disk := fun x => if x = 0x1C2 ∨ x = 0x1C6 ∨ x = 0x1CA then 1 else 0 } }

theorem diskRequest_opensOrCloses {type : Int} (either : type = msgDevOpen ∨ type = msgDevClose) :
    (diskRequest type 0 0).OpensOrCloses :=
  ⟨either, .whole, rfl⟩

theorem loaded_after_opens_twice : LoadedAfterOpens plainEnv
    [diskRequest msgDevOpen 0 0, diskRequest msgDevClose 0 0, diskRequest msgDevOpen 0 0]
    partitionedHdd := by
  refine (loaded_after_opens_iff plainEnv _ partitionedHdd plainEnv_responsive rfl ?_).mpr
    (.inr (.inl ⟨0, by decide⟩))
  intro m member
  simp only [List.mem_cons, List.not_mem_nil, or_false] at member
  rcases member with rfl | rfl | rfl
  · exact diskRequest_opensOrCloses (.inl rfl)
  · exact diskRequest_opensOrCloses (.inr rfl)
  · exact diskRequest_opensOrCloses (.inl rfl)

/-- **A close before the first open** makes that open skip the table. -/
theorem not_loaded_after_close : ¬ LoadedAfterOpens plainEnv
    [diskRequest msgDevClose 0 0, diskRequest msgDevOpen 0 0] partitionedHdd := by
  intro all
  obtain ⟨log, t, gives, loaded⟩ := all [diskRequest msgDevClose 0 0] (diskRequest msgDevOpen 0 0)
    (List.prefix_refl _) rfl
  have requests : ∀ m ∈ [diskRequest msgDevClose 0 0] ++ [diskRequest msgDevOpen 0 0],
      m.OpensOrCloses := by
    intro m member
    simp only [List.cons_append, List.nil_append, List.mem_cons, List.not_mem_nil, or_false] at member
    rcases member with rfl | rfl
    · exact diskRequest_opensOrCloses (.inr rfl)
    · exact diskRequest_opensOrCloses (.inl rfl)
  have responds := plainEnv_responsive
  have cleared : partitionedHdd.info = .zero := rfl
  obtain ⟨log', t', gives', iff⟩ := serveAll_loaded_iff responds cleared requests rfl
  have same : t = t' := Except.ok.inj (gives.outcome.symm.trans gives'.outcome)
  rcases iff.mp (same ▸ loaded) with counted | nothing
  · exact absurd counted (by decide)
  · exact absurd (nothing (.primary 0)) (by decide)

end WalOS
