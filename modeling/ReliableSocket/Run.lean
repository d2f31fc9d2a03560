import Mathlib.Data.List.Basic

/-! # Runs of a system given by a step function

The state after a list of actions, conditions that each action meets in the state in which it is
taken, and the rules that carry an invariant of the single step to the whole run. -/

namespace run

variable {σ α : Type} (step : σ → α → σ)

/-- The state after a list of actions. -/
def steps (s : σ) (actions : List α) : σ := actions.foldl step s

/-- Each action meets the condition in the state in which it is taken. -/
def AllOk (Ok : σ → α → Prop) : σ → List α → Prop
  | _, [] => True
  | s, a :: actions => Ok s a ∧ AllOk Ok (step s a) actions

/-- The predicate holds before and after each action. -/
def Always (P : σ → Prop) : σ → List α → Prop
  | s, [] => P s
  | s, a :: actions => P s ∧ Always P (step s a) actions

/-- The state after each action. -/
def states : σ → List α → List σ
  | _, [] => []
  | s, a :: actions => step s a :: states (step s a) actions

instance decidableAllOk (Ok : σ → α → Prop) [∀ s a, Decidable (Ok s a)] :
    ∀ s actions, Decidable (AllOk step Ok s actions)
  | _, [] => isTrue trivial
  | s, a :: actions =>
    have := decidableAllOk Ok (step s a) actions
    inferInstanceAs (Decidable (Ok s a ∧ AllOk step Ok (step s a) actions))

variable {step} {Ok : σ → α → Prop} {I P : σ → Prop}

@[simp] theorem steps_nil (s : σ) : steps step s [] = s := rfl

@[simp] theorem steps_cons (s : σ) (a : α) (actions : List α) :
    steps step s (a :: actions) = steps step (step s a) actions := rfl

theorem steps_concat (s : σ) (actions : List α) (a : α) :
    steps step s (actions ++ [a]) = step (steps step s actions) a := by
  rw [steps, List.foldl_append]
  rfl

theorem allOk_concat {s : σ} {actions : List α} {a : α} :
    AllOk step Ok s (actions ++ [a]) ↔ AllOk step Ok s actions ∧ Ok (steps step s actions) a := by
  induction actions generalizing s with
  | nil => simp [AllOk]
  | cons b actions ih =>
    rw [List.cons_append, AllOk, AllOk, ih, steps_cons, and_assoc]

theorem steps_append (s : σ) (actions more : List α) :
    steps step s (actions ++ more) = steps step (steps step s actions) more := List.foldl_append

/-- The first actions of a run meet the condition as well. -/
theorem AllOk.of_append {s : σ} {actions more : List α} (hok : AllOk step Ok s (actions ++ more)) :
    AllOk step Ok s actions := by
  induction actions generalizing s with
  | nil => trivial
  | cons a actions ih => exact ⟨hok.1, ih hok.2⟩

theorem allOk_iff {s : σ} {actions : List α} :
    AllOk step Ok s actions ↔
      ∀ before a after, actions = before ++ a :: after → Ok (steps step s before) a := by
  constructor
  · rintro hok before a after rfl
    induction before generalizing s with
    | nil => exact hok.1
    | cons b before ih => exact ih hok.2
  · intro hall
    induction actions generalizing s with
    | nil => trivial
    | cons a actions ih =>
      refine ⟨hall [] a actions rfl, ih fun before b after heq => ?_⟩
      exact hall (a :: before) b after (by rw [heq]; rfl)

theorem length_states (s : σ) (actions : List α) : (states step s actions).length = actions.length := by
  induction actions generalizing s with
  | nil => rfl
  | cons a actions ih => rw [states, List.length_cons, List.length_cons, ih]

/-- Two systems go through the same states if each action does the same in both. -/
theorem states_eq_iff {step' : σ → α → σ} {s : σ} {actions : List α} :
    states step' s actions = states step s actions ↔ AllOk step (fun s a => step' s a = step s a) s actions := by
  induction actions generalizing s with
  | nil => exact iff_of_true rfl trivial
  | cons a actions ih =>
    rw [states, states, AllOk, List.cons.injEq, ← ih]
    exact and_congr_right fun hsame => by rw [hsame]

/-- An invariant that every step keeps holds at the end of every run. -/
theorem steps_invariant (hstep : ∀ s a, I s → I (step s a)) {s : σ} (hs : I s) (actions : List α) :
    I (steps step s actions) := by
  induction actions generalizing s with
  | nil => exact hs
  | cons a actions ih => exact ih (hstep s a hs)

/-- The same for an invariant that speaks about the actions so far. -/
theorem steps_history {H : List α → σ → Prop} {Q : α → Prop}
    (hstep : ∀ past s a, H past s → Q a → H (past ++ [a]) (step s a)) {past : List α} {s : σ} (hs : H past s)
    {actions : List α} (hall : ∀ a ∈ actions, Q a) : H (past ++ actions) (steps step s actions) := by
  induction actions generalizing past s with
  | nil =>
    rw [List.append_nil]
    exact hs
  | cons a actions ih =>
    have hnext := ih (hstep past s a hs (hall a List.mem_cons_self))
      fun b hb => hall b (List.mem_cons_of_mem a hb)
    rw [List.append_assoc] at hnext
    exact hnext

/-- An invariant that each step keeps holds at the end of the run. -/
theorem AllOk.invariant (hstep : ∀ s a, I s → Ok s a → I (step s a)) {s : σ} {actions : List α}
    (hs : I s) (hok : AllOk step Ok s actions) : I (steps step s actions) := by
  induction actions generalizing s with
  | nil => exact hs
  | cons a actions ih => exact ih (hstep s a hs hok.1) hok.2

/-- What follows from such an invariant always holds. -/
theorem AllOk.always (hstep : ∀ s a, I s → Ok s a → I (step s a)) (hsafe : ∀ s, I s → P s) {s : σ}
    {actions : List α} (hs : I s) (hok : AllOk step Ok s actions) : Always step P s actions := by
  induction actions generalizing s with
  | nil => exact hsafe s hs
  | cons a actions ih => exact ⟨hsafe s hs, ih (hstep s a hs hok.1) hok.2⟩

theorem Always.last {s : σ} {actions : List α} (halways : Always step P s actions) :
    P (steps step s actions) := by
  induction actions generalizing s with
  | nil => exact halways
  | cons a actions ih => exact ih halways.2

theorem AllOk.and {Ok' : σ → α → Prop} {s : σ} {actions : List α} (hok : AllOk step Ok s actions)
    (hok' : AllOk step Ok' s actions) : AllOk step (fun s a => Ok s a ∧ Ok' s a) s actions := by
  induction actions generalizing s with
  | nil => trivial
  | cons a actions ih => exact ⟨⟨hok.1, hok'.1⟩, ih hok.2 hok'.2⟩

/-- A condition on the actions alone joins one on the states. -/
theorem AllOk.and_mem {Q : α → Prop} {s : σ} {actions : List α} (hall : ∀ a ∈ actions, Q a)
    (hok : AllOk step Ok s actions) : AllOk step (fun s a => Q a ∧ Ok s a) s actions := by
  induction actions generalizing s with
  | nil => trivial
  | cons a actions ih =>
    exact ⟨⟨hall a (List.mem_cons_self ..), hok.1⟩, ih (fun b hb => hall b (List.mem_cons_of_mem a hb)) hok.2⟩

/-- A condition that the invariant turns into another one. -/
theorem AllOk.imp {Ok' : σ → α → Prop} (hstep : ∀ s a, I s → Ok s a → I (step s a))
    (himp : ∀ s a, I s → Ok s a → Ok' s a) {s : σ} {actions : List α} (hs : I s)
    (hok : AllOk step Ok s actions) : AllOk step Ok' s actions := by
  induction actions generalizing s with
  | nil => trivial
  | cons a actions ih => exact ⟨himp s a hs hok.1, ih (hstep s a hs hok.1) hok.2⟩

/-- Two runs whose states stay related, if each step that meets the condition keeps them related. -/
theorem AllOk.simulates {R : σ → σ → Prop} {Ok' : σ → α → Prop}
    (hstep : ∀ s t a, R s t → Ok s a → R (step s a) (step t a)) (himp : ∀ s t a, R s t → Ok s a → Ok' t a)
    {s t : σ} {actions : List α} (hrel : R s t) (hok : AllOk step Ok s actions) :
    R (steps step s actions) (steps step t actions) ∧ AllOk step Ok' t actions := by
  induction actions generalizing s t with
  | nil => exact ⟨hrel, trivial⟩
  | cons a actions ih =>
    obtain ⟨hlast, hrest⟩ := ih (hstep s t a hrel hok.1) hok.2
    exact ⟨hlast, himp s t a hrel hok.1, hrest⟩

/-- Two conditions that mean the same wherever the invariant holds mean the same for a run, if every step
    keeps the invariant. -/
theorem allOk_congr {Ok' : σ → α → Prop} (hstep : ∀ s a, I s → I (step s a))
    (hiff : ∀ s a, I s → (Ok s a ↔ Ok' s a)) {s : σ} (hs : I s) (actions : List α) :
    AllOk step Ok s actions ↔ AllOk step Ok' s actions := by
  induction actions generalizing s with
  | nil => exact Iff.rfl
  | cons a actions ih => exact and_congr (hiff s a hs) (ih (hstep s a hs))

/-- The same for two conditions one of which is needed to keep the invariant, in runs whose steps all meet
    an assumption. -/
theorem allOk_iff_of_assumed {As Ok' : σ → α → Prop}
    (hstep : ∀ s a, I s → As s a → Ok' s a → I (step s a))
    (hiff : ∀ s a, I s → As s a → (Ok s a ↔ Ok' s a)) {s : σ} {actions : List α} (hs : I s)
    (hassumed : AllOk step As s actions) : AllOk step Ok s actions ↔ AllOk step Ok' s actions := by
  induction actions generalizing s with
  | nil => exact Iff.rfl
  | cons a actions ih =>
    rw [AllOk, AllOk, hiff s a hs hassumed.1]
    exact and_congr_right fun hok => ih (hstep s a hs hassumed.1 hok) hassumed.2

/-- If a step keeps the invariant exactly when it meets the condition, a run never leaves it exactly
    when all its steps meet the condition. -/
theorem always_iff_allOk (hkeep : ∀ s a, I s → Ok s a → I (step s a))
    (hleave : ∀ s a, I s → P (step s a) → Ok s a) (hsafe : ∀ s, I s → P s) {s : σ} (hs : I s)
    (actions : List α) : Always step P s actions ↔ AllOk step Ok s actions := by
  induction actions generalizing s with
  | nil => exact ⟨fun _ => trivial, fun _ => hsafe s hs⟩
  | cons a actions ih =>
    have hhead : ∀ {t : σ} {rest : List α}, Always step P t rest → P t := by
      intro t rest h
      cases rest with
      | nil => exact h
      | cons => exact h.1
    constructor
    · intro h
      have hok : Ok s a := hleave s a hs (hhead h.2)
      exact ⟨hok, (ih (hkeep s a hs hok)).mp h.2⟩
    · intro h
      exact ⟨hsafe s hs, (ih (hkeep s a hs h.1)).mpr h.2⟩

/-- If moreover what is lost once stays lost, it is enough to look at the end of the run. -/
theorem final_iff_allOk (hkeep : ∀ s a, I s → Ok s a → I (step s a))
    (hleave : ∀ s a, I s → P (step s a) → Ok s a) (hback : ∀ s a, P (step s a) → P s)
    (hsafe : ∀ s, I s → P s) {s : σ} (hs : I s) (actions : List α) :
    P (steps step s actions) ↔ AllOk step Ok s actions := by
  have hearlier : ∀ (actions : List α) {t : σ}, P (steps step t actions) → P t := by
    intro actions
    induction actions with
    | nil => exact fun h => h
    | cons a actions ih => exact fun h => hback _ a (ih h)
  constructor
  · intro h
    induction actions generalizing s with
    | nil => trivial
    | cons a actions ih =>
      have hok : Ok s a := hleave s a hs (hearlier actions h)
      exact ⟨hok, ih (hkeep s a hs hok) h⟩
  · exact fun hok => hsafe _ (hok.invariant hkeep hs)

end run
