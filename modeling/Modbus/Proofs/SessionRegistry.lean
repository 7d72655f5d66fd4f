import Mathlib.Algebra.Group.Nat.Defs
import Mathlib.Data.List.Nodup
import Modbus.Tcp.Registry

/-! Sessions that come and go in any order. A connection is accepted in two
steps, and a session's task ends in two, so that other tasks and whoever closes
all sessions can come in between. Only the accesses to the registry take place
one after the other. Whatever their order is, the registry lists the sessions
that are open, and no task has a hold on the session of another. -/

namespace Modbus.Tcp

namespace Registry

/-- The numbers of the sessions that are listed. -/
def ids (registry : Registry) : List UInt64 := registry.sessions.map Entry.id

variable {registry other : Registry} {id key : UInt64} {phase : Phase} {now : Nat}

/-! ## The order of the list -/

theorem ids_perm (registry : Registry) : registry.ids.Perm (registry.entries.map Entry.id) :=
  (List.mergeSort_perm _ _).map _

/-- Whatever order the entries are kept in, they are listed in the order of their numbers. -/
theorem ids_ordered (registry : Registry) : registry.ids.Pairwise (· < ·) := by
  have hle : registry.sessions.Pairwise fun first second => first.id ≤ second.id := by
    refine List.Pairwise.imp of_decide_eq_true (List.pairwise_mergeSort ?_ ?_ registry.entries)
    · intro first second third hfirst hsecond
      exact decide_eq_true (UInt64.le_trans (of_decide_eq_true hfirst) (of_decide_eq_true hsecond))
    · intro first second
      simpa using UInt64.le_total first.id second.id
  have hdistinct : registry.ids.Nodup :=
    registry.ids_perm.nodup_iff.mpr (List.pairwise_map.mpr registry.distinct)
  have hboth := List.Pairwise.and (List.pairwise_map.mpr hle) hdistinct
  exact hboth.imp fun ⟨hle, hne⟩ => UInt64.lt_of_le_of_ne hle hne

/-- Two lists in order are the same if they have the same members. -/
theorem eq_of_ordered {α : Type} {key : α → UInt64} {one other : List α}
    (hone : (one.map key).Pairwise (· < ·)) (hother : (other.map key).Pairwise (· < ·))
    (hperm : one.Perm other) : one = other := by
  refine hperm.eq_of_pairwise (fun a b _ _ hab hba => ?_) (List.pairwise_map.mp hone)
    (List.pairwise_map.mp hother)
  exact absurd (UInt64.lt_trans hab hba) (UInt64.lt_irrefl _)

/-- Which of the sessions are listed depends on the entries, and on nothing else. -/
theorem filter_sessions (keep : Entry → Bool)
    (h : (registry.entries.filter keep).Perm (other.entries.filter keep)) :
    registry.sessions.filter keep = other.sessions.filter keep := by
  have hperm : ∀ registry : Registry,
      (registry.sessions.filter keep).Perm (registry.entries.filter keep) :=
    fun _ => (List.mergeSort_perm _ _).filter _
  have hordered : ∀ registry : Registry,
      ((registry.sessions.filter keep).map Entry.id).Pairwise (· < ·) :=
    fun registry => registry.ids_ordered.sublist (List.filter_sublist.map _)
  exact eq_of_ordered (hordered registry) (hordered other)
    ((hperm registry).trans (h.trans (hperm other).symm))

/-! ## What is listed -/

theorem mem_ids : id ∈ registry.ids ↔ ∃ entry ∈ registry.entries, entry.id = id := by
  rw [registry.ids_perm.mem_iff, List.mem_map]

theorem mem_ids_remove : key ∈ (registry.remove id).ids ↔ key ≠ id ∧ key ∈ registry.ids := by
  simp only [mem_ids, remove, List.mem_filter, decide_eq_true_eq]
  constructor
  · rintro ⟨entry, ⟨hentry, hne⟩, rfl⟩
    exact ⟨hne, entry, hentry, rfl⟩
  · rintro ⟨hne, entry, hentry, rfl⟩
    exact ⟨entry, ⟨hentry, hne⟩, rfl⟩

theorem mem_ids_register {peer : String} :
    key ∈ (registry.register id peer now).ids ↔ key = id ∨ key ∈ registry.ids := by
  have hentries : (registry.register id peer now).entries =
      ⟨id, peer, .idle, now⟩ :: (registry.remove id).entries := rfl
  rw [mem_ids, hentries, List.exists_mem_cons_iff, ← mem_ids, mem_ids_remove]
  by_cases hsame : key = id
  · simp [hsame]
  · simp [hsame, Ne.symm hsame]

@[simp] theorem ids_setPhase : (registry.setPhase id phase now).ids = registry.ids := by
  have hkept : (registry.setPhase id phase now).entries.map Entry.id =
      registry.entries.map Entry.id := by
    simp only [setPhase, List.map_map]
    refine List.map_congr_left fun entry _ => ?_
    rw [Function.comp_apply]
    split <;> rfl
  have hperm := (ids_perm (registry.setPhase id phase now)).trans
    (hkept ▸ registry.ids_perm.symm)
  exact hperm.eq_of_pairwise (fun a b _ _ hab hba => absurd hab (UInt64.lt_asymm hba))
    (ids_ordered _) (ids_ordered _)

theorem phase_of_mem_setPhase {entry : Entry}
    (h : entry ∈ (registry.setPhase id phase now).sessions) (hid : entry.id = id) :
    entry.phase = phase := by
  obtain ⟨old, -, rfl⟩ := List.mem_map.mp (List.mem_mergeSort.mp h)
  by_cases hsame : old.id = id
  · rw [if_pos hsame]
    rfl
  · rw [if_neg hsame] at hid
    exact absurd hid hsame

/-! ## What others are listed -/

theorem others_setPhase :
    (registry.setPhase id phase now).sessions.filter (·.id ≠ id) =
      registry.sessions.filter (·.id ≠ id) := by
  refine filter_sessions _ (List.Perm.of_eq ?_)
  simp only [setPhase, ne_eq, decide_not]
  induction registry.entries with
  | nil => rfl
  | cons first rest ih =>
    by_cases hsame : first.id = id <;> simp [hsame, ih]

theorem others_remove :
    (registry.remove id).sessions.filter (·.id ≠ id) =
      registry.sessions.filter (·.id ≠ id) := by
  refine filter_sessions _ (List.Perm.of_eq ?_)
  simp [remove]

theorem ne_of_not_mem (h : id ∉ registry.ids) : ∀ entry ∈ registry.entries, entry.id ≠ id :=
  fun entry hentry hsame => h (mem_ids.mpr ⟨entry, hentry, hsame⟩)

/-- What is said of a session that is not listed changes nothing. -/
theorem setPhase_of_not_mem (h : id ∉ registry.ids) :
    registry.setPhase id phase now = registry := by
  have hkept := ne_of_not_mem h
  refine Registry.ext rfl ?_
  calc (registry.setPhase id phase now).entries
    _ = registry.entries.map fun entry => entry :=
      List.map_congr_left fun entry hentry => if_neg (hkept entry hentry)
    _ = registry.entries := List.map_id' _

theorem remove_of_not_mem (h : id ∉ registry.ids) : registry.remove id = registry := by
  have hkept := ne_of_not_mem h
  exact Registry.ext rfl <|
    List.filter_eq_self.mpr fun entry hentry => decide_eq_true (hkept entry hentry)

end Registry

/-- How far the task of a session has come. -/
inductive Stage where
  | absent
  | numbered
  | serving
  | closing
  | ended
  deriving DecidableEq, Repr

/-- A task begins when its session is listed. -/
def Stage.begun : Stage → Bool
  | .absent | .numbered => false
  | .serving | .closing | .ended => true

/-- The registry that all share, and how far the tasks have come. -/
structure Shared where
  registry : Registry := {}
  stage : UInt64 → Stage := fun _ => .absent

/-- An access to the registry, during which nobody else has it. -/
inductive Access where
  | number (id : UInt64)
  | register (id : UInt64) (peer : String) (now : Nat)
  | update (id : UInt64) (phase : Phase) (now : Nat)
  | close (id : UInt64) (now : Nat)
  | remove (id : UInt64)
  | closeAll
  deriving DecidableEq, Repr

namespace Access

def apply (registry : Registry) : Access → Registry
  | number _ => registry.number.2
  | register id peer now => registry.register id peer now
  | update id phase now => registry.setPhase id phase now
  | close id now => registry.setPhase id .closed now
  | remove id => registry.remove id
  | closeAll => registry.closeAll

/-- The session whose task makes the access. -/
def task : Access → Option UInt64
  | update id .. | close id _ | remove id => some id
  | number _ | register .. | closeAll => none

def numbered : Access → Option UInt64
  | number id => some id
  | _ => none

def registered : Access → Option UInt64
  | register id .. => some id
  | _ => none

variable {registry : Registry} {access : Access} {id : UInt64}

/-- A task changes nothing of the sessions of others. -/
theorem others_apply (h : access.task = some id) :
    (access.apply registry).sessions.filter (·.id ≠ id) =
      registry.sessions.filter (·.id ≠ id) := by
  cases access with
  | update =>
    obtain rfl := Option.some.inj h
    exact Registry.others_setPhase
  | close =>
    obtain rfl := Option.some.inj h
    exact Registry.others_setPhase
  | remove =>
    obtain rfl := Option.some.inj h
    exact Registry.others_remove
  | number | register | closeAll => cases h

/-- A task whose session is not listed changes nothing at all. -/
theorem apply_of_not_mem (h : access.task = some id) (hid : id ∉ registry.ids) :
    access.apply registry = registry := by
  cases access with
  | update =>
    obtain rfl := Option.some.inj h
    exact Registry.setPhase_of_not_mem hid
  | close =>
    obtain rfl := Option.some.inj h
    exact Registry.setPhase_of_not_mem hid
  | remove =>
    obtain rfl := Option.some.inj h
    exact Registry.remove_of_not_mem hid
  | number | register | closeAll => cases h

theorem mem_ids_apply :
    id ∈ (access.apply registry).ids ↔ access.registered = some id ∨
      id ∈ registry.ids ∧ access ≠ .remove id ∧ access ≠ .closeAll := by
  cases access with
  | number => simp [apply, Registry.number, Registry.ids, Registry.sessions, registered]
  | register new => simp [apply, Registry.mem_ids_register, registered, eq_comm]
  | update | close => simp [apply, registered]
  | remove gone => simp [apply, Registry.mem_ids_remove, registered, eq_comm, and_comm]
  | closeAll => simp [apply, Registry.closeAll, Registry.ids, Registry.sessions, registered]

end Access

/-- The numbers that have been given out. -/
def numbers (accesses : List Access) : List UInt64 := accesses.filterMap Access.numbered

/-- The sessions that have been listed. -/
def registrations (accesses : List Access) : List UInt64 := accesses.filterMap Access.registered

theorem numbers_concat (accesses : List Access) (access : Access) :
    numbers (accesses ++ [access]) = numbers accesses ++ access.numbered.toList := by
  rw [numbers, List.filterMap_append]
  cases h : access.numbered <;> simp [numbers, h]

theorem registrations_concat (accesses : List Access) (access : Access) :
    registrations (accesses ++ [access]) = registrations accesses ++ access.registered.toList := by
  rw [registrations, List.filterMap_append]
  cases h : access.registered <;> simp [registrations, h]

namespace Shared

/-- How far the tasks have come when one of them gets further. -/
def move (shared : Shared) (id : UInt64) (stage : Stage) : UInt64 → Stage :=
  fun other => if other = id then stage else shared.stage other

/-- Who may have the registry next. A task that has been aborted may go on for a while, or get no
further. -/
inductive Step (shared : Shared) : Access → Shared → Prop where
  | number : Step shared (.number shared.registry.number.1)
      ⟨shared.registry.number.2, shared.move shared.registry.number.1 .numbered⟩
  | register {id : UInt64} (h : shared.stage id = .numbered) (peer : String) (now : Nat) :
    Step shared (.register id peer now)
      ⟨shared.registry.register id peer now, shared.move id .serving⟩
  | update {id : UInt64} (h : shared.stage id = .serving) (phase : Phase) (now : Nat) :
    Step shared (.update id phase now) ⟨shared.registry.setPhase id phase now, shared.stage⟩
  | close {id : UInt64} (h : shared.stage id = .serving) (now : Nat) :
    Step shared (.close id now) ⟨shared.registry.setPhase id .closed now, shared.move id .closing⟩
  | remove {id : UInt64} (h : shared.stage id = .closing) :
    Step shared (.remove id) ⟨shared.registry.remove id, shared.move id .ended⟩
  | closeAll : Step shared .closeAll ⟨shared.registry.closeAll, shared.stage⟩

/-- Accesses in an order that is possible, and what they lead to. -/
inductive Run : List Access → Shared → Prop where
  | start : Run [] {}
  | step {accesses : List Access} {access : Access} {shared after : Shared}
    (hrun : Run accesses shared) (hstep : Step shared access after) :
    Run (accesses ++ [access]) after

variable {accesses : List Access} {access : Access} {shared after : Shared} {id : UInt64}

theorem Step.registry_eq (h : Step shared access after) :
    after.registry = access.apply shared.registry := by
  cases h <;> rfl

/-- A session that has been listed, has not ended since, and was not there when all were closed. -/
def Open (accesses : List Access) (id : UInt64) : Prop :=
  ∃ before listed after, accesses = before ++ listed :: after ∧ listed.registered = some id ∧
    .remove id ∉ after ∧ .closeAll ∉ after

theorem not_open_nil : ¬ Open [] id := by
  rintro ⟨before, listed, after, hnil, -⟩
  exact List.append_ne_nil_of_right_ne_nil before (List.cons_ne_nil _ after) hnil.symm

theorem open_concat_iff :
    Open (accesses ++ [access]) id ↔ access.registered = some id ∨
      Open accesses id ∧ access ≠ .remove id ∧ access ≠ .closeAll := by
  constructor
  · rintro ⟨before, listed, after, hall, hlisted, hremove, hcloseAll⟩
    rcases List.eq_nil_or_concat after with rfl | ⟨after, last, rfl⟩
    · obtain rfl := List.singleton_inj.mp (List.append_inj' hall rfl).2
      exact .inl hlisted
    · have hlast : accesses ++ [access] = (before ++ listed :: after) ++ [last] := by
        simpa using hall
      obtain ⟨rfl, hsame⟩ := List.append_inj' hlast rfl
      obtain rfl := List.singleton_inj.mp hsame
      rw [List.concat_eq_append, List.mem_append, not_or, List.mem_singleton] at hremove hcloseAll
      exact .inr ⟨⟨before, listed, after, rfl, hlisted, hremove.1, hcloseAll.1⟩,
        Ne.symm hremove.2, Ne.symm hcloseAll.2⟩
  · rintro (hlisted | ⟨⟨before, listed, after, rfl, hlisted, hremove, hcloseAll⟩, hother, hsome⟩)
    · exact ⟨accesses, access, [], rfl, hlisted, List.not_mem_nil, List.not_mem_nil⟩
    · refine ⟨before, listed, after ++ [access], by simp, hlisted, ?_, ?_⟩
      · simp [hremove, Ne.symm hother]
      · simp [hcloseAll, Ne.symm hsome]

theorem mem_registrations :
    id ∈ registrations accesses ↔ ∃ access ∈ accesses, access.registered = some id :=
  List.mem_filterMap

/-- A session that is open was listed among the last accesses, or they did not end it. -/
theorem Open.of_append {before last : List Access} (h : Open (before ++ last) id) :
    id ∈ registrations last ∨ .remove id ∉ last ∧ .closeAll ∉ last := by
  obtain ⟨first, listed, after, hall, hlisted, hremove, hcloseAll⟩ := h
  rw [mem_registrations]
  rcases List.append_eq_append_iff.mp hall with ⟨between, -, hlast⟩ | ⟨between, -, hafter⟩
  · rw [hlast]
    exact .inl ⟨listed, List.mem_append_right _ List.mem_cons_self, hlisted⟩
  · cases between with
    | nil =>
      rw [List.nil_append] at hafter
      rw [← hafter]
      exact .inl ⟨listed, List.mem_cons_self, hlisted⟩
    | cons other between =>
      obtain ⟨-, rfl⟩ := List.cons.inj hafter
      exact .inr ⟨fun hmem => hremove (List.mem_append_right _ hmem),
        fun hmem => hcloseAll (List.mem_append_right _ hmem)⟩

/-- The registry lists the sessions that are open. -/
theorem Run.mem_ids_iff (h : Run accesses shared) (id : UInt64) :
    id ∈ shared.registry.ids ↔ Open accesses id := by
  induction h with
  | start => exact iff_of_false (by simp [Registry.ids, Registry.sessions]) not_open_nil
  | step hrun hstep ih => rw [hstep.registry_eq, Access.mem_ids_apply, open_concat_iff, ih]

theorem move_absent {given : List UInt64} {stage : Stage}
    (h : ∀ other, other ∉ given → shared.stage other = .absent) (hid : shared.stage id ≠ .absent) :
    ∀ other, other ∉ given → shared.move id stage other = .absent := by
  intro other hother
  have habsent := h other hother
  have hne : other ≠ id := by
    rintro rfl
    exact hid habsent
  rw [move, if_neg hne, habsent]

theorem move_begun {listed : List UInt64} {stage : Stage}
    (h : ∀ other ∈ listed, (shared.stage other).begun) (hstage : stage.begun) :
    ∀ other ∈ listed, (shared.move id stage other).begun := by
  intro other hother
  rw [move]
  split
  · exact hstage
  · exact h other hother

/-- What holds as long as the numbers last: they are given out in their order, and a task does not
begin before it has one, nor twice. -/
structure Consistent (accesses : List Access) (shared : Shared) : Prop where
  next : shared.registry.nextId = .ofNat (numbers accesses).length
  bounded : ∀ id ∈ numbers accesses, id.toNat < (numbers accesses).length
  given_nodup : (numbers accesses).Nodup
  absent : ∀ id, id ∉ numbers accesses → shared.stage id = .absent
  begun : ∀ id ∈ registrations accesses, (shared.stage id).begun
  listed_nodup : (registrations accesses).Nodup

/-- Neither is a number given out nor a session listed. -/
theorem Consistent.keep (h : Consistent accesses shared) (hnumbered : access.numbered = none)
    (hregistered : access.registered = none)
    (hnext : after.registry.nextId = shared.registry.nextId)
    (habsent : ∀ id, id ∉ numbers accesses → after.stage id = .absent)
    (hbegun : ∀ id ∈ registrations accesses, (after.stage id).begun) :
    Consistent (accesses ++ [access]) after := by
  have hnumbers : numbers (accesses ++ [access]) = numbers accesses := by
    rw [numbers_concat, hnumbered, Option.toList_none, List.append_nil]
  have hregistrations : registrations (accesses ++ [access]) = registrations accesses := by
    rw [registrations_concat, hregistered, Option.toList_none, List.append_nil]
  constructor
  · rw [hnumbers, hnext, h.next]
  · rw [hnumbers]
    exact h.bounded
  · rw [hnumbers]
    exact h.given_nodup
  · rw [hnumbers]
    exact habsent
  · rw [hregistrations]
    exact hbegun
  · rw [hregistrations]
    exact h.listed_nodup

/-- A new number is none of those given out before. -/
theorem Consistent.number (h : Consistent accesses shared)
    (hcount : (numbers accesses).length < 2 ^ 64) :
    Consistent (accesses ++ [.number shared.registry.nextId])
      ⟨shared.registry.number.2, shared.move shared.registry.nextId .numbered⟩ := by
  have hnumbers : numbers (accesses ++ [.number shared.registry.nextId]) =
      numbers accesses ++ [shared.registry.nextId] := numbers_concat _ _
  have hregistrations : registrations (accesses ++ [.number shared.registry.nextId]) =
      registrations accesses := (registrations_concat _ _).trans (List.append_nil _)
  have hid : shared.registry.nextId.toNat = (numbers accesses).length := by
    rw [h.next, UInt64.toNat_ofNat', Nat.mod_eq_of_lt hcount]
  have hnew : shared.registry.nextId ∉ numbers accesses := by
    intro hmem
    exact Nat.lt_irrefl _ (hid ▸ h.bounded _ hmem)
  have hunlisted : ∀ id ∈ registrations accesses, id ≠ shared.registry.nextId := by
    rintro id hmem rfl
    have hbegun := h.begun _ hmem
    rw [h.absent _ hnew] at hbegun
    cases hbegun
  constructor
  · rw [hnumbers, List.length_append, List.length_singleton, UInt64.ofNat_add, ← h.next]
    rfl
  · rw [hnumbers, List.length_append, List.length_singleton]
    intro id hmem
    rcases List.mem_append.mp hmem with hmem | hmem
    · exact Nat.lt_succ_of_lt (h.bounded id hmem)
    · rw [List.mem_singleton.mp hmem, hid]
      exact Nat.lt_succ_self _
  · rw [hnumbers, ← List.concat_eq_append]
    exact h.given_nodup.concat hnew
  · intro id hid
    rw [hnumbers, List.mem_append, not_or, List.mem_singleton] at hid
    simp only [move, if_neg hid.2, h.absent id hid.1]
  · rw [hregistrations]
    intro id hmem
    simp only [move, if_neg (hunlisted id hmem)]
    exact h.begun id hmem
  · rw [hregistrations]
    exact h.listed_nodup

/-- A session that is listed has not been listed before. -/
theorem Consistent.register (h : Consistent accesses shared) (hid : shared.stage id = .numbered)
    (peer : String) (now : Nat) :
    Consistent (accesses ++ [.register id peer now])
      ⟨shared.registry.register id peer now, shared.move id .serving⟩ := by
  have hnumbers : numbers (accesses ++ [.register id peer now]) = numbers accesses :=
    (numbers_concat _ _).trans (List.append_nil _)
  have hregistrations : registrations (accesses ++ [.register id peer now]) =
      registrations accesses ++ [id] := registrations_concat _ _
  have hnew : id ∉ registrations accesses := by
    intro hmem
    have hbegun := h.begun _ hmem
    rw [hid] at hbegun
    cases hbegun
  constructor
  · rw [hnumbers]
    exact h.next
  · rw [hnumbers]
    exact h.bounded
  · rw [hnumbers]
    exact h.given_nodup
  · rw [hnumbers]
    exact move_absent h.absent (by rw [hid]; decide)
  · rw [hregistrations]
    intro other hmem
    simp only [move]
    split
    · rfl
    · next hother =>
      rcases List.mem_append.mp hmem with hmem | hmem
      · exact h.begun other hmem
      · exact absurd (List.mem_singleton.mp hmem) hother
  · rw [hregistrations, ← List.concat_eq_append]
    exact h.listed_nodup.concat hnew

theorem Consistent.step (h : Consistent accesses shared) (hstep : Step shared access after)
    (hcount : (numbers (accesses ++ [access])).length ≤ 2 ^ 64) :
    Consistent (accesses ++ [access]) after := by
  cases hstep with
  | number =>
    rw [numbers_concat, List.length_append] at hcount
    exact h.number hcount
  | register hid peer now => exact h.register hid peer now
  | update hid => exact h.keep rfl rfl rfl h.absent h.begun
  | close hid =>
    exact h.keep rfl rfl rfl (move_absent h.absent (by rw [hid]; decide)) (move_begun h.begun rfl)
  | remove hid =>
    exact h.keep rfl rfl rfl (move_absent h.absent (by rw [hid]; decide)) (move_begun h.begun rfl)
  | closeAll => exact h.keep rfl rfl rfl h.absent h.begun

theorem Run.consistent (h : Run accesses shared) (hcount : (numbers accesses).length ≤ 2 ^ 64) :
    Consistent accesses shared := by
  induction h with
  | start =>
    exact ⟨rfl, nofun, List.nodup_nil, fun _ _ => rfl, nofun, List.nodup_nil⟩
  | step hrun hstep ih =>
    refine (ih ?_).step hstep hcount
    rw [numbers_concat, List.length_append] at hcount
    exact Nat.le_of_add_right_le hcount

/-- A session that was open once is not open again. -/
theorem Run.not_open {before last : List Access} (h : Run (before ++ last) shared)
    (hcount : (numbers (before ++ last)).length ≤ 2 ^ 64) (hlisted : id ∈ registrations before)
    (hgone : .remove id ∈ last ∨ .closeAll ∈ last) : ¬ Open (before ++ last) id := by
  intro hopen
  rcases hopen.of_append with hagain | ⟨hremove, hcloseAll⟩
  · have honce := (h.consistent hcount).listed_nodup
    rw [registrations, List.filterMap_append, List.nodup_append] at honce
    exact honce.2.2 id hlisted id hagain rfl
  · exact hgone.elim hremove hcloseAll

/-- The registry in any order of accesses, as long as there are numbers left. No number is given out
twice, and no session is listed twice. The sessions are listed in the order of their numbers, and
they are those that are open. What has been closed does not come back, and after all have been
closed the next session that is listed is the first. The task of a session changes nothing of the
sessions of others, and nothing at all if its own session has been closed. -/
theorem run_sessions (h : Run accesses shared) (hcount : (numbers accesses).length ≤ 2 ^ 64) :
    ((numbers accesses).Nodup ∧ (registrations accesses).Nodup) ∧
    ((shared.registry.sessions.map Entry.id).Pairwise (· < ·) ∧
      shared.registry.sessions.length = shared.registry.sessionCount) ∧
    (∀ id, id ∈ shared.registry.sessions.map Entry.id ↔ Open accesses id) ∧
    (∀ before last, accesses = before ++ last →
      (∀ id ∈ registrations before, .remove id ∈ last ∨ .closeAll ∈ last →
        id ∉ shared.registry.sessions.map Entry.id) ∧
      (.closeAll ∈ last → registrations last = [] → shared.registry.sessions = [])) ∧
    ∀ (id : UInt64) (access : Access), access.task = some id →
      (access.apply shared.registry).sessions.filter (·.id ≠ id) =
        shared.registry.sessions.filter (·.id ≠ id) ∧
      (id ∉ shared.registry.sessions.map Entry.id →
        access.apply shared.registry = shared.registry) := by
  have hconsistent := h.consistent hcount
  refine ⟨⟨hconsistent.given_nodup, hconsistent.listed_nodup⟩,
    ⟨Registry.ids_ordered _, List.length_mergeSort _⟩, h.mem_ids_iff, ?_, ?_⟩
  · rintro before last rfl
    constructor
    · intro id hlisted hgone hmem
      exact h.not_open hcount hlisted hgone ((h.mem_ids_iff id).mp hmem)
    · intro hcloseAll hnone
      have hempty : ∀ id, id ∉ shared.registry.ids := by
        intro id hmem
        rcases ((h.mem_ids_iff id).mp hmem).of_append with hlisted | ⟨-, hopen⟩
        · rw [hnone] at hlisted
          cases hlisted
        · exact hopen hcloseAll
      exact List.map_eq_nil_iff.mp (List.eq_nil_iff_forall_not_mem.mpr hempty)
  · intro id access htask
    exact ⟨Access.others_apply htask, Access.apply_of_not_mem htask⟩

/-- All sessions are closed when of two connections only the second is listed. Its task goes on for
a while, and a third connection is accepted meanwhile. -/
def crossing : List Access :=
  [.number 0, .number 1, .register 1 "b" 3, .closeAll, .register 0 "a" 4, .update 1 .reading 5,
    .close 1 6, .number 2, .register 2 "c" 7, .remove 1]

theorem run_sessions_crossing : ∃ shared, Run crossing shared ∧
    shared.registry.sessions = [⟨0, "a", .idle, 4⟩, ⟨2, "c", .idle, 7⟩] ∧ Open crossing 0 ∧
    (Access.remove 1).apply shared.registry = shared.registry := by
  have hrun : Run ([] ++ [.number 0] ++ [.number 1] ++ [.register 1 "b" 3] ++ [.closeAll] ++
      [.register 0 "a" 4] ++ [.update 1 .reading 5] ++ [.close 1 6] ++ [.number 2] ++
      [.register 2 "c" 7] ++ [.remove 1]) _ :=
    .step (.step (.step (.step (.step (.step (.step (.step (.step (.step .start
      .number) .number) (.register rfl "b" 3)) .closeAll) (.register rfl "a" 4))
      (.update rfl .reading 5)) (.close rfl 6)) .number) (.register rfl "c" 7)) (.remove rfl)
  obtain ⟨-, ⟨hordered, -⟩, hopen, hgone, htask⟩ := run_sessions hrun (by decide)
  have hclosed := (hgone [.number 0, .number 1, .register 1 "b" 3] _ rfl).1 1 (by decide)
    (.inr List.mem_cons_self)
  have hsessions : _ = ([⟨0, "a", .idle, 4⟩, ⟨2, "c", .idle, 7⟩] : List Entry) :=
    Registry.eq_of_ordered hordered (by decide) ((List.mergeSort_perm _ _).trans (by decide))
  have hlisted := List.mem_map_of_mem (f := Entry.id) (hsessions ▸ List.mem_cons_self)
  exact ⟨_, hrun, hsessions, (hopen 0).mp hlisted, (htask 1 (.remove 1) rfl).2 hclosed⟩

end Shared

end Modbus.Tcp
