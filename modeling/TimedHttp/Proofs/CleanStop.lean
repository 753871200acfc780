import Mathlib.Data.List.Induction
import TimedHttp.Server.Lifecycle

/-!
# A clean stop

Whatever happens to a server and in whatever order: connections are accepted in the order in which
they come; once the server has seen the signal none is accepted any more, however many wait; a task
leaves only after it has run to its end; and the server returns only when every task has.

## Main statements

* `ServerState.step?_keeps`, `ServerState.step?_adds` — what one happening leaves alone, and adds
* `ServerState.run?_rec` — induction over the happenings of a run
* `ServerState.Booked` — the invariant: what the state tells of what has happened
* `ServerState.exists_return` — a server that is told to stop can do so
* `ServerState.stops_cleanly` — the whole life of a server
-/

namespace TimedHttp

namespace Happening

/-- The connection that comes. -/
def arrival? : Happening → Option Nat
  | connects c => some c
  | _ => none

/-- The connection whose task runs to its end. -/
def ended? : Happening → Option Nat
  | ends c _ => some c
  | _ => none

theorem ended?_eq_some_iff {happening : Happening} {c : Nat} :
    happening.ended? = some c ↔ ∃ crashed, happening = .ends c crashed := by
  cases happening <;> simp [ended?]

end Happening

namespace ServerState

variable {s t : ServerState} {happening : Happening} {happenings : List Happening}

/-! ## One happening -/

theorem step?_accepts (h : s.step? .accepts = some t) :
    s.phase = .accepting ∧ ∃ c rest, s.waiting = c :: rest ∧
      t = { s with
        waiting := rest
        tasks := s.tasks ++ [{ connection := c }]
        accepted := s.accepted ++ [c] } := by
  simp only [step?] at h
  split at h
  next c rest hphase hwaiting =>
    cases h
    exact ⟨hphase, c, rest, hwaiting, rfl⟩
  next => cases h

/-- **What one happening leaves alone.** Only the signal seen and the return change the phase; a
failure to accept changes nothing; and a task is touched by its own end alone, and taken off only
after that. -/
theorem step?_keeps (h : s.step? happening = some t) :
    (happening ≠ .seesSignal → happening ≠ .returns → t.phase = s.phase) ∧
    (happening = .acceptFails → t = s) ∧
    ∀ task ∈ s.tasks, task ∈ t.tasks ∨ (∃ crashed, happening = .ends task.connection crashed) ∨
      (happening = .joins task.connection ∧ task.ended = true) := by
  cases happening with
  | connects c =>
    cases h
    exact ⟨fun _ _ => rfl, nofun, fun task htask => .inl htask⟩
  | signal =>
    cases h
    exact ⟨fun _ _ => rfl, nofun, fun task htask => .inl htask⟩
  | ends c crashed =>
    simp only [step?, Option.ite_none_right_eq_some, Option.some.injEq] at h
    obtain ⟨-, rfl⟩ := h
    refine ⟨fun _ _ => rfl, nofun, fun task htask => ?_⟩
    by_cases hc : task.connection = c
    · exact .inr (.inl ⟨crashed, by rw [hc]⟩)
    · exact .inl (List.mem_map.mpr ⟨task, htask, if_neg hc⟩)
  | accepts =>
    obtain ⟨-, c, rest, -, rfl⟩ := step?_accepts h
    exact ⟨fun _ _ => rfl, nofun, fun task htask => .inl (List.mem_append_left _ htask)⟩
  | acceptFails =>
    simp only [step?, Option.ite_none_right_eq_some, Option.some.injEq] at h
    obtain ⟨-, rfl⟩ := h
    exact ⟨fun _ _ => rfl, fun _ => rfl, fun task htask => .inl htask⟩
  | joins c =>
    simp only [step?, Option.ite_none_right_eq_some, Option.some.injEq] at h
    obtain ⟨-, rfl⟩ := h
    refine ⟨fun _ _ => rfl, nofun, fun task htask => ?_⟩
    by_cases hc : task = { connection := c, ended := true }
    · subst hc
      exact .inr (.inr ⟨rfl, rfl⟩)
    · exact .inl ((List.mem_erase_of_ne hc).mpr htask)
  | seesSignal =>
    simp only [step?, Option.ite_none_right_eq_some, Option.some.injEq] at h
    obtain ⟨-, rfl⟩ := h
    exact ⟨fun hne => absurd rfl hne, nofun, fun task htask => .inl htask⟩
  | returns =>
    simp only [step?, Option.ite_none_right_eq_some, Option.some.injEq] at h
    obtain ⟨-, rfl⟩ := h
    exact ⟨fun _ hne => absurd rfl hne, nofun, fun task htask => .inl htask⟩

/-- **What one happening adds**: to the connections known, to those served, and to the tasks. -/
theorem step?_adds (h : s.step? happening = some t) :
    t.accepted ++ t.waiting = s.accepted ++ s.waiting ++ happening.arrival?.toList ∧
    t.completed = s.completed ++ happening.ended?.toList ∧
    (∀ c, c ∈ t.accepted ↔ c ∈ s.accepted ∨ (happening = .accepts ∧ s.waiting.head? = some c)) ∧
    ∀ task ∈ t.tasks, task ∈ s.tasks ∨
      (task.ended = true ∧ { connection := task.connection } ∈ s.tasks ∧
        ∃ crashed, happening = .ends task.connection crashed) ∨
      (task.ended = false ∧ happening = .accepts ∧ s.waiting.head? = some task.connection) := by
  cases happening with
  | connects c =>
    cases h
    simp_all [Happening.arrival?, Happening.ended?]
  | signal =>
    cases h
    simp_all [Happening.arrival?, Happening.ended?]
  | ends c crashed =>
    simp only [step?, Option.ite_none_right_eq_some, Option.some.injEq] at h
    obtain ⟨hrunning, rfl⟩ := h
    refine ⟨by simp [Happening.arrival?], rfl, by simp, fun task htask => ?_⟩
    obtain ⟨old, hold, rfl⟩ := List.mem_map.mp htask
    by_cases hc : old.connection = c
    · subst hc
      exact .inr (.inl (by simpa using hrunning))
    · exact .inl (by rwa [if_neg hc])
  | accepts =>
    obtain ⟨-, c, rest, hwaiting, rfl⟩ := step?_accepts h
    refine ⟨by simp [hwaiting, Happening.arrival?], by simp [Happening.ended?],
      by simp [hwaiting, eq_comm], fun task htask => ?_⟩
    refine (List.mem_append.mp htask).imp_right fun hnew => .inr ?_
    rw [List.mem_singleton.mp hnew]
    simp [hwaiting]
  | acceptFails =>
    obtain rfl := (step?_keeps h).2.1 rfl
    simp_all [Happening.arrival?, Happening.ended?]
  | joins c =>
    simp only [step?, Option.ite_none_right_eq_some, Option.some.injEq] at h
    obtain ⟨-, rfl⟩ := h
    exact ⟨by simp [Happening.arrival?], by simp [Happening.ended?], by simp,
      fun task htask => .inl (List.mem_of_mem_erase htask)⟩
  | seesSignal =>
    simp only [step?, Option.ite_none_right_eq_some, Option.some.injEq] at h
    obtain ⟨-, rfl⟩ := h
    simp_all [Happening.arrival?, Happening.ended?]
  | returns =>
    simp only [step?, Option.ite_none_right_eq_some, Option.some.injEq] at h
    obtain ⟨-, rfl⟩ := h
    simp_all [Happening.arrival?, Happening.ended?]

/-- **What one happening tells of the signal.** -/
theorem step?_signal (h : s.step? happening = some t) :
    (t.signalled = true ↔ s.signalled = true ∨ happening = .signal) ∧
    (t.phase ≠ .accepting ↔ s.phase ≠ .accepting ∨ happening = .seesSignal) ∧
    (happening = .seesSignal → s.signalled = true) ∧
    (happening = .returns → s.phase = .draining ∧ s.tasks = []) := by
  cases happening with
  | connects c =>
    cases h
    simp
  | signal =>
    cases h
    simp
  | accepts =>
    obtain ⟨-, c, rest, -, rfl⟩ := step?_accepts h
    simp
  | ends c crashed | joins c | acceptFails | seesSignal | returns =>
    simp only [step?, Option.ite_none_right_eq_some, Option.some.injEq] at h
    obtain ⟨hcan, rfl⟩ := h
    simp_all

/-! ## A run -/

theorem run?_append (s : ServerState) (xs ys : List Happening) :
    s.run? (xs ++ ys) = (s.run? xs).bind (·.run? ys) :=
  List.foldlM_append

theorem run?_cons (s : ServerState) (happening : Happening) (ys : List Happening) :
    s.run? (happening :: ys) = (s.step? happening).bind (·.run? ys) :=
  List.foldlM_cons

theorem run?_concat (s : ServerState) (xs : List Happening) (happening : Happening) :
    s.run? (xs ++ [happening]) = (s.run? xs).bind (·.step? happening) := by
  rw [run?_append]
  cases s.run? xs with
  | none => rfl
  | some t => exact (bind_pure (t.step? happening) :)

/-- **Induction over a run**: what holds at first, and of the state after each happening if it held
of the state before, holds in the end. -/
theorem run?_rec {I : List Happening → ServerState → Prop} (first : I [] s)
    (next : ∀ happenings happening t u, I happenings t → t.step? happening = some u →
      I (happenings ++ [happening]) u)
    (h : s.run? happenings = some t) : I happenings t := by
  induction happenings using List.reverseRecOn generalizing t with
  | nil =>
    cases h
    exact first
  | append_singleton xs happening ih =>
    rw [run?_concat] at h
    obtain ⟨u, hu, hstep⟩ := Option.bind_eq_some_iff.mp h
    exact next xs happening u t (ih hu) hstep

/-- Anything that happened in a run happened in a state that the run had reached. -/
theorem exists_step?_of_run? {xs ys : List Happening}
    (h : s.run? (xs ++ happening :: ys) = some t) :
    ∃ u v, s.run? xs = some u ∧ u.step? happening = some v := by
  rw [run?_append] at h
  obtain ⟨u, hu, h⟩ := Option.bind_eq_some_iff.mp h
  rw [run?_cons] at h
  obtain ⟨v, hv, -⟩ := Option.bind_eq_some_iff.mp h
  exact ⟨u, v, hu, hv⟩

/-- **The books of a server** agree with what has happened: who came was accepted or waits, who was
accepted has a running task or was served, and the phase follows the signal. -/
structure Booked (happenings : List Happening) (s : ServerState) : Prop where
  arrivals : happenings.filterMap Happening.arrival? = s.accepted ++ s.waiting
  completed : s.completed = happenings.filterMap Happening.ended?
  served : ∀ c ∈ s.accepted, { connection := c } ∈ s.tasks ∨ c ∈ s.completed
  known : ∀ task ∈ s.tasks, task.connection ∈ s.accepted
  completedKnown : ∀ c ∈ s.completed, c ∈ s.accepted
  signalled : s.signalled = true ↔ .signal ∈ happenings
  stopping : s.phase ≠ .accepting ↔ .seesSignal ∈ happenings
  heeded : s.phase ≠ .accepting → s.signalled = true

theorem booked_nil : Booked [] {} := by
  constructor <;> simp

/-- **One happening keeps the books.** -/
theorem Booked.step (hs : Booked happenings s) (h : s.step? happening = some t) :
    Booked (happenings ++ [happening]) t := by
  obtain ⟨-, -, htasks⟩ := step?_keeps h
  obtain ⟨harrivals, hcompleted, haccepted, hnew⟩ := step?_adds h
  obtain ⟨hsignalled, hstopping, hsees, -⟩ := step?_signal h
  constructor
  case arrivals =>
    rw [List.filterMap_append, hs.arrivals, harrivals]
    cases happening <;> rfl
  case completed =>
    rw [List.filterMap_append, hcompleted, hs.completed]
    cases happening <;> rfl
  case served =>
    intro c hc
    rcases (haccepted c).mp hc with hold | ⟨rfl, hhead⟩
    · rcases hs.served c hold with hrunning | hserved
      · -- a running task stays, or ends here; it cannot be taken off, as it had not ended
        rcases htasks _ hrunning with hstays | ⟨crashed, rfl⟩ | ⟨-, hended⟩
        · exact .inl hstays
        · exact .inr (by simp [hcompleted, Happening.ended?])
        · exact nomatch hended
      · exact .inr (hcompleted ▸ List.mem_append_left _ hserved)
    · obtain ⟨-, d, rest, hwaiting, rfl⟩ := step?_accepts h
      rw [hwaiting] at hhead
      cases hhead
      exact .inl (List.mem_append_right _ List.mem_cons_self)
  case known =>
    intro task htask
    rcases hnew task htask with hold | ⟨-, hrunning, -⟩ | ⟨-, haccepts, hhead⟩
    · exact (haccepted _).mpr (.inl (hs.known task hold))
    · exact (haccepted _).mpr (.inl (hs.known { connection := task.connection } hrunning))
    · exact (haccepted _).mpr (.inr ⟨haccepts, hhead⟩)
  case completedKnown =>
    intro c hc
    rw [hcompleted] at hc
    refine (haccepted c).mpr (.inl ?_)
    rcases List.mem_append.mp hc with hold | hends
    · exact hs.completedKnown c hold
    · obtain ⟨crashed, rfl⟩ := Happening.ended?_eq_some_iff.mp (Option.mem_toList.mp hends)
      simp only [step?, Option.ite_none_right_eq_some] at h
      exact hs.known _ h.1
  case signalled =>
    simp [hsignalled, hs.signalled, eq_comm]
  case stopping =>
    simp [hstopping, hs.stopping, eq_comm]
  case heeded =>
    intro hphase
    refine hsignalled.mpr (.inl ?_)
    exact (hstopping.mp hphase).elim hs.heeded hsees

theorem booked_of_run? (h : run? {} happenings = some s) : Booked happenings s :=
  run?_rec booked_nil (fun _ _ _ _ hs hstep => hs.step hstep) h

/-- If no connection comes twice, none is served twice, nor while its task runs. -/
theorem completed_nodup (h : run? {} happenings = some s)
    (hdistinct : (happenings.filterMap Happening.arrival?).Nodup) :
    s.completed.Nodup ∧ ∀ c, { connection := c } ∈ s.tasks → c ∉ s.completed := by
  revert hdistinct
  refine (run?_rec (I := fun happenings s => Booked happenings s ∧
    ((happenings.filterMap Happening.arrival?).Nodup →
      s.completed.Nodup ∧ ∀ c, { connection := c } ∈ s.tasks → c ∉ s.completed))
    ⟨booked_nil, fun _ => by simp⟩ ?_ h).2
  intro happenings happening s t ⟨hs, ih⟩ hstep
  refine ⟨hs.step hstep, fun hdistinct => ?_⟩
  rw [List.filterMap_append] at hdistinct
  obtain ⟨hnodup, hrunning⟩ := ih (List.nodup_append.mp hdistinct).1
  obtain ⟨-, hcompleted, -, hnew⟩ := step?_adds hstep
  rw [hcompleted]
  constructor
  · refine List.nodup_append.mpr ⟨hnodup, by cases happening <;> simp [Happening.ended?], ?_⟩
    rintro c hc d hd rfl
    obtain ⟨crashed, rfl⟩ := Happening.ended?_eq_some_iff.mp (Option.mem_toList.mp hd)
    simp only [step?, Option.ite_none_right_eq_some] at hstep
    exact hrunning c hstep.1 hc
  · intro c htask hc
    rcases hnew _ htask with hold | ⟨hended, -⟩ | ⟨-, rfl, hhead⟩
    · -- it ran before, so it would end here; but then it does not run any more
      rcases List.mem_append.mp hc with hserved | hends
      · exact hrunning c hold hserved
      · obtain ⟨crashed, rfl⟩ := Happening.ended?_eq_some_iff.mp (Option.mem_toList.mp hends)
        simp only [step?, Option.ite_none_right_eq_some, Option.some.injEq] at hstep
        obtain ⟨-, rfl⟩ := hstep
        obtain ⟨old, -, heq⟩ := List.mem_map.mp htask
        by_cases hold : old.connection = c
        · rw [if_pos hold] at heq
          exact nomatch congrArg ServerTask.ended heq
        · rw [if_neg hold] at heq
          exact hold (congrArg ServerTask.connection heq)
    · exact nomatch hended
    · -- it is accepted here, so it waited; but what was served had been accepted before
      have hserved : c ∈ s.completed := by simpa [Happening.ended?] using hc
      have hwaits : c ∈ s.waiting := List.mem_of_head? hhead
      rw [hs.arrivals] at hdistinct
      have hapart := (List.nodup_append.mp (List.nodup_append.mp hdistinct).1).2.2
      exact hapart c (hs.completedKnown c hserved) c hwaits rfl

/-! ## Stopping -/

/-- A task that has ended can be taken off. -/
theorem exists_joined {c : Nat} (hphase : s.phase ≠ .returned)
    (htask : { connection := c, ended := true } ∈ s.tasks) :
    ∃ t, s.step? (.joins c) = some t ∧ t.tasks.length + 1 = s.tasks.length ∧ t.phase = s.phase := by
  have hpos := List.length_pos_of_mem htask
  refine ⟨_, if_pos ⟨hphase, htask⟩, ?_, rfl⟩
  simp only [List.length_erase_of_mem htask]
  omega

/-- **Tasks that end can be taken off until none is left**, by nothing but their ends. -/
theorem exists_emptied (hphase : s.phase ≠ .returned) :
    ∃ more t, s.run? more = some t ∧ t.tasks = [] ∧ t.phase = s.phase ∧
      ∀ happening ∈ more,
        (∃ c crashed, happening = .ends c crashed) ∨ ∃ c, happening = .joins c := by
  generalize hn : s.tasks.length = n
  induction n generalizing s with
  | zero => exact ⟨[], s, rfl, List.length_eq_zero_iff.mp hn, rfl, List.forall_mem_nil _⟩
  | succ n ih =>
    obtain ⟨⟨c, ended⟩, htask⟩ := List.exists_mem_of_length_pos (show 0 < s.tasks.length by omega)
    cases ended with
    | true =>
      obtain ⟨u, hjoins, hlength, hu⟩ := exists_joined hphase htask
      obtain ⟨more, t, hrun, hempty, ht, hmore⟩ := ih (hu ▸ hphase) (by omega)
      refine ⟨.joins c :: more, t, by rw [run?_cons, hjoins]; exact hrun, hempty, ht.trans hu, ?_⟩
      exact List.forall_mem_cons.mpr ⟨.inr ⟨c, rfl⟩, hmore⟩
    | false =>
      -- the task runs: it ends first, and is taken off next
      have hends : s.step? (.ends c false) = some _ := if_pos htask
      have hmarked := List.mem_map_of_mem
        (f := fun t : ServerTask => if t.connection = c then { t with ended := true } else t) htask
      simp only [if_true] at hmarked
      obtain ⟨u, hjoins, hlength, hu⟩ := exists_joined (s := { s with
        tasks := s.tasks.map fun t => if t.connection = c then { t with ended := true } else t
        completed := s.completed ++ [c] }) hphase hmarked
      simp only [List.length_map] at hlength
      obtain ⟨more, t, hrun, hempty, ht, hmore⟩ := ih (hu ▸ hphase) (by omega)
      refine ⟨.ends c false :: .joins c :: more, t, ?_, hempty, ht.trans hu, ?_⟩
      · rw [run?_cons, hends, Option.bind_some, run?_cons, hjoins]
        exact hrun
      · exact List.forall_mem_cons.mpr ⟨.inl ⟨c, false, rfl⟩,
          List.forall_mem_cons.mpr ⟨.inr ⟨c, rfl⟩, hmore⟩⟩

/-- **A server that is told to stop can do so**, and needs nothing for it but the ends of its tasks.
-/
theorem exists_return (s : ServerState) (hphase : s.phase ≠ .returned) :
    ∃ more t, s.run? (.signal :: more) = some t ∧ t.phase = .returned ∧ .accepts ∉ more := by
  let told : ServerState := { s with signalled := true }
  -- the signal is seen, unless it has been seen before
  obtain ⟨seen, u, hseen, hu, hnone⟩ : ∃ seen u,
      told.run? seen = some u ∧ u.phase = .draining ∧ .accepts ∉ seen := by
    cases hs : s.phase with
    | accepting =>
      have hsees : told.step? .seesSignal = some { told with phase := .draining } :=
        if_pos ⟨hs, rfl⟩
      exact ⟨[.seesSignal], _, by rw [run?_cons, hsees]; rfl, rfl, by simp⟩
    | draining => exact ⟨[], told, rfl, hs, List.not_mem_nil⟩
    | returned => exact absurd hs hphase
  obtain ⟨more, t, hrun, hempty, ht, hmore⟩ := exists_emptied (s := u) (by rw [hu]; exact nofun)
  have hreturns : t.step? .returns = some { t with phase := .returned } :=
    if_pos ⟨ht.trans hu, hempty⟩
  refine ⟨seen ++ (more ++ [.returns]), { t with phase := .returned }, ?_, rfl, ?_⟩
  · calc s.run? (.signal :: (seen ++ (more ++ [.returns])))
        = told.run? (seen ++ (more ++ [.returns])) := rfl
      _ = (u.run? more).bind (·.step? .returns) := by
          rw [run?_append, hseen, Option.bind_some, run?_concat]
      _ = some { t with phase := .returned } := by rw [hrun, Option.bind_some, hreturns]
  · intro hmem
    simp only [List.mem_append, List.mem_singleton, reduceCtorEq, or_false] at hmem
    rcases hmem with hmem | hmem
    · exact hnone hmem
    · rcases hmore _ hmem with ⟨c, crashed, he⟩ | ⟨c, he⟩ <;> exact nomatch he

/-- **A clean stop.** Of any run of a server, from its beginning: connections are accepted in the
order in which they came. Once the server has seen the signal, none is accepted, whether or not some
wait. A failure to accept changes nothing, and no happening but the signal seen and the return
changes the phase; a task is touched by no happening but its own end, normal or by a crash, and
leaves only after that. The server returns only after it saw the signal, when each connection
accepted has run to its end, and each of them once. And unless it has returned, it still can. -/
theorem stops_cleanly (h : run? {} happenings = some s) :
    happenings.filterMap Happening.arrival? = s.accepted ++ s.waiting ∧
    (∀ before after, happenings = before ++ .seesSignal :: after → .accepts ∉ after) ∧
    (∀ happening t, s.step? happening = some t →
      (happening ≠ .seesSignal → happening ≠ .returns → t.phase = s.phase) ∧
      (happening = .acceptFails → t = s) ∧
      ∀ task ∈ s.tasks, task ∈ t.tasks ∨ (∃ crashed, happening = .ends task.connection crashed) ∨
        (happening = .joins task.connection ∧ task.ended = true)) ∧
    (∀ t, s.step? .returns = some t →
      (.signal ∈ happenings ∧ .seesSignal ∈ happenings) ∧
      (∀ c ∈ s.accepted, ∃ crashed, .ends c crashed ∈ happenings) ∧
      ((happenings.filterMap Happening.arrival?).Nodup → s.completed.Perm s.accepted)) ∧
    (s.phase ≠ .returned →
      ∃ more t, s.run? (.signal :: more) = some t ∧ t.phase = .returned ∧ .accepts ∉ more) := by
  have hbooked := booked_of_run? h
  refine ⟨hbooked.arrivals, ?_, fun _ _ => step?_keeps, ?_, s.exists_return⟩
  · rintro before after rfl hmem
    obtain ⟨between, rest, rfl⟩ := List.append_of_mem hmem
    rw [← List.cons_append, ← List.append_assoc] at h
    obtain ⟨u, v, hu, hv⟩ := exists_step?_of_run? h
    obtain ⟨hphase, -⟩ := step?_accepts hv
    exact (booked_of_run? hu).stopping.mpr (by simp) hphase
  · intro t ht
    obtain ⟨hphase, hempty⟩ := (step?_signal ht).2.2.2 rfl
    have hstopping : s.phase ≠ .accepting := by
      rw [hphase]
      exact nofun
    -- without tasks, whoever was accepted was served
    have hserved : ∀ c ∈ s.accepted, c ∈ s.completed := by
      intro c hc
      refine (hbooked.served c hc).resolve_left ?_
      rw [hempty]
      exact List.not_mem_nil
    refine ⟨⟨hbooked.signalled.mp (hbooked.heeded hstopping), hbooked.stopping.mp hstopping⟩,
      ?_, ?_⟩
    · intro c hc
      have hended := hserved c hc
      rw [hbooked.completed] at hended
      obtain ⟨happening, hmem, he⟩ := List.mem_filterMap.mp hended
      obtain ⟨crashed, rfl⟩ := Happening.ended?_eq_some_iff.mp he
      exact ⟨crashed, hmem⟩
    · intro hdistinct
      obtain ⟨hnodup, -⟩ := completed_nodup h hdistinct
      rw [hbooked.arrivals] at hdistinct
      refine (List.perm_ext_iff_of_nodup hnodup (List.nodup_append.mp hdistinct).1).mpr fun c => ?_
      exact ⟨hbooked.completedKnown c, hserved c⟩

/-- One connection is accepted between the signal and the look that sees it, and its task crashes;
another one still waits when the signal is seen. -/
def interrupted : List Happening :=
  [.connects 7, .acceptFails, .connects 8, .signal, .accepts, .ends 7 true, .seesSignal, .joins 7]

/-- The server may return: the first connection was served, and the second was not accepted. -/
theorem interrupted_returns :
    ∃ s t, run? {} interrupted = some s ∧ s.step? .returns = some t ∧ s.waiting = [8] ∧
      (∃ crashed, .ends 7 crashed ∈ interrupted) ∧ s.completed.Perm [7] := by
  obtain ⟨s, hrun, t, ht, hwaiting, haccepted⟩ : ∃ s, run? {} interrupted = some s ∧
      ∃ t, s.step? .returns = some t ∧ s.waiting = [8] ∧ s.accepted = [7] :=
    ⟨_, rfl, _, rfl, rfl, rfl⟩
  obtain ⟨-, -, -, hreturns, -⟩ := stops_cleanly hrun
  obtain ⟨-, hserved, hperm⟩ := hreturns t ht
  rw [haccepted] at hserved hperm
  exact ⟨s, t, hrun, ht, hwaiting, hserved 7 List.mem_cons_self, hperm (by decide)⟩

end ServerState

end TimedHttp
