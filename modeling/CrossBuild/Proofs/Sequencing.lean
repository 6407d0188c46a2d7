import CrossBuild.Machine
import Mathlib.Data.List.Forall2
import Mathlib.Tactic.Lemma

/-!
# Results of sequenced work

What it takes for a sequence of steps to succeed, for steps that only give a result, for steps that also
change a state, and for tasks on a machine. Later files take successful runs apart with these statements
alone.
-/

namespace CrossBuild.Proofs

lemma bind_eq_ok {ε α β : Type} {x : Except ε α} {f : α → Except ε β} {b : β} :
    (x >>= f) = .ok b ↔ ∃ a, x = .ok a ∧ f a = .ok b := by
  cases x with
  | error e => simp [bind, Except.bind]
  | ok a => simp [bind, Except.bind]

lemma pure_eq_ok {ε α : Type} {a b : α} : (pure a : Except ε α) = .ok b ↔ a = b := by
  simp [pure, Except.pure]

lemma bind_eq_error {ε α β : Type} {x : Except ε α} {f : α → Except ε β} {e : ε} :
    (x >>= f) = .error e ↔ x = .error e ∨ ∃ a, x = .ok a ∧ f a = .error e := by
  cases x with
  | error e' => simp [bind, Except.bind]
  | ok a => simp [bind, Except.bind]

lemma succeeds_of_isSome {ε α : Type} {result : Except ε α} (h : result.toOption.isSome = true) :
    ∃ a, result = .ok a := by
  cases result with
  | error error => simp [Except.toOption] at h
  | ok a => exact ⟨a, rfl⟩

lemma mapM_eq_ok {ε α β : Type} {f : α → Except ε β} {xs : List α} {ys : List β} :
    xs.mapM f = .ok ys ↔ List.Forall₂ (fun x y => f x = .ok y) xs ys := by
  induction xs generalizing ys with
  | nil => rw [List.mapM_nil, pure_eq_ok, List.forall₂_nil_left_iff, eq_comm]
  | cons x xs ih =>
    simp only [List.mapM_cons, bind_eq_ok, pure_eq_ok, ih, List.forall₂_cons_left_iff]
    constructor
    · rintro ⟨y, hy, ys', hys, rfl⟩
      exact ⟨y, ys', hy, hys, rfl⟩
    · rintro ⟨y, ys', hy, hys, rfl⟩
      exact ⟨y, hy, ys', hys, rfl⟩

lemma mapM_eq_some {α β : Type} {f : α → Option β} {xs : List α} {ys : List β} :
    xs.mapM f = some ys ↔ List.Forall₂ (fun x y => f x = some y) xs ys := by
  induction xs generalizing ys with
  | nil => simp [eq_comm]
  | cons x xs ih =>
    simp only [List.mapM_cons, Option.bind_eq_bind, Option.bind_eq_some_iff, Option.pure_def, Option.some_inj, ih,
      List.forall₂_cons_left_iff]
    constructor
    · rintro ⟨y, hy, rest, hrest, rfl⟩
      exact ⟨y, rest, hy, hrest, rfl⟩
    · rintro ⟨y, rest, hy, hrest, rfl⟩
      exact ⟨y, hy, rest, hrest, rfl⟩

lemma mapM_succeeds_iff {ε α β : Type} {f : α → Except ε β} {xs : List α} :
    (∃ ys, xs.mapM f = .ok ys) ↔ ∀ x ∈ xs, ∃ y, f x = .ok y := by
  simp only [mapM_eq_ok]
  induction xs with
  | nil => simp
  | cons x xs ih =>
    rw [List.forall_mem_cons, ← ih]
    constructor
    · rintro ⟨ys, hall⟩
      cases hall with
      | cons hy hys => exact ⟨⟨_, hy⟩, _, hys⟩
    · rintro ⟨⟨_, hy⟩, _, hys⟩
      exact ⟨_, .cons hy hys⟩

lemma exists_of_forall₂ {α β : Type} {R : α → β → Prop} {as : List α} {bs : List β}
    (h : List.Forall₂ R as bs) {a : α} (ha : a ∈ as) : ∃ b ∈ bs, R a b := by
  induction h with
  | nil => simp at ha
  | cons hfirst _ ih =>
    rcases List.mem_cons.mp ha with rfl | ha
    · exact ⟨_, List.mem_cons_self, hfirst⟩
    · obtain ⟨b, hb, hrest⟩ := ih ha
      exact ⟨b, List.mem_cons_of_mem _ hb, hrest⟩

/-- The first step that fails stops the rest. -/
lemma mapM_eq_error {ε α β : Type} {f : α → Except ε β} {xs : List α} {e : ε} :
    xs.mapM f = .error e ↔ ∃ before x after, xs = before ++ x :: after ∧
      (∀ y ∈ before, ∃ b, f y = .ok b) ∧ f x = .error e := by
  induction xs with
  | nil => simp [pure, Except.pure]
  | cons x xs ih =>
    have hpure : ∀ y : β, ∀ ys : List β, (pure (y :: ys) : Except ε (List β)) ≠ .error e := by
      simp [pure, Except.pure]
    simp only [List.mapM_cons, bind_eq_error, hpure, ih, and_false, exists_false, or_false]
    constructor
    · rintro (hx | ⟨y, hy, before, x', after, rfl, hbefore, hx'⟩)
      · exact ⟨[], x, xs, rfl, by simp, hx⟩
      · exact ⟨x :: before, x', after, rfl, List.forall_mem_cons.mpr ⟨⟨y, hy⟩, hbefore⟩, hx'⟩
    · rintro ⟨before, x', after, heq, hbefore, hx'⟩
      cases before with
      | nil =>
        cases heq
        exact .inl hx'
      | cons first before =>
        cases heq
        obtain ⟨⟨y, hy⟩, hbefore⟩ := List.forall_mem_cons.mp hbefore
        exact .inr ⟨y, hy, before, x', after, rfl, hbefore, hx'⟩

lemma foldlM_eq_error {ε α β : Type} {f : β → α → Except ε β} {xs : List α} {b : β} {e : ε} :
    xs.foldlM f b = .error e ↔ ∃ before x after reached, xs = before ++ x :: after ∧
      before.foldlM f b = .ok reached ∧ f reached x = .error e := by
  induction xs generalizing b with
  | nil => simp [pure, Except.pure]
  | cons x xs ih =>
    rw [List.foldlM_cons, bind_eq_error]
    simp only [ih]
    constructor
    · rintro (hx | ⟨b', hb', before, x', after, reached, rfl, hbefore, hx'⟩)
      · exact ⟨[], x, xs, b, rfl, rfl, hx⟩
      · refine ⟨x :: before, x', after, reached, rfl, ?_, hx'⟩
        rw [List.foldlM_cons, bind_eq_ok]
        exact ⟨b', hb', hbefore⟩
    · rintro ⟨before, x', after, reached, heq, hbefore, hx'⟩
      cases before with
      | nil =>
        cases heq
        cases hbefore
        exact .inl hx'
      | cons first before =>
        cases heq
        rw [List.foldlM_cons, bind_eq_ok] at hbefore
        obtain ⟨b', hb', hbefore⟩ := hbefore
        exact .inr ⟨b', hb', before, x', after, reached, rfl, hbefore, hx'⟩

lemma mapError_eq_ok {ε ε' α : Type} {wrap : ε → ε'} {x : Except ε α} {a : α} :
    x.mapError wrap = .ok a ↔ x = .ok a := by
  cases x <;> simp [Except.mapError]

section Steps

variable {S ε α β : Type}

/-- The step succeeds in one state with a result and leaves another state. -/
def Gives (step : ExceptT ε (StateM S) α) (s : S) (a : α) (s' : S) : Prop := step s = (.ok a, s')

lemma gives_iff (step : ExceptT ε (StateM S) α) (r : Except ε α × S) {s s' : S} {a : α}
    (h : step s = r) : Gives step s a s' ↔ r.1 = .ok a ∧ r.2 = s' := by
  unfold Gives
  rw [h]
  exact Prod.ext_iff

lemma gives_pure {a b : α} {s s' : S} :
    Gives (pure a : ExceptT ε (StateM S) α) s b s' ↔ a = b ∧ s = s' := by
  rw [gives_iff (pure a) (.ok a, s) rfl]
  simp

lemma gives_throw {e : ε} {b : α} {s s' : S} :
    ¬Gives (throw e : ExceptT ε (StateM S) α) s b s' := by
  rw [gives_iff (throw e) (.error e, s) rfl]
  simp

lemma run_bind (x : ExceptT ε (StateM S) α) (f : α → ExceptT ε (StateM S) β) (s : S) :
    (x >>= f) s =
      match x s with
      | (.ok a, between) => f a between
      | (.error e, between) => (.error e, between) := by
  change ExceptT.bindCont f (x s).1 (x s).2 = _
  rcases x s with ⟨_ | _, _⟩ <;> rfl

lemma run_get (s : S) : (get : ExceptT ε (StateM S) S) s = (.ok s, s) := rfl

lemma run_tryCatch (x : ExceptT ε (StateM S) α) (handle : ε → ExceptT ε (StateM S) α) (s : S) :
    (tryCatch x handle) s =
      match x s with
      | (.ok a, after) => (.ok a, after)
      | (.error e, after) => handle e after := by
  change (ExceptT.tryCatch x handle) s = _
  unfold ExceptT.tryCatch ExceptT.mk
  dsimp only [bind, StateT.bind]
  rcases x s with ⟨_ | _, _⟩ <;> rfl

lemma gives_bind {x : ExceptT ε (StateM S) α} {f : α → ExceptT ε (StateM S) β} {b : β} {s s' : S} :
    Gives (x >>= f) s b s' ↔ ∃ a between, Gives x s a between ∧ Gives (f a) between b s' := by
  unfold Gives
  rw [run_bind]
  rcases hx : x s with ⟨e | a, between⟩
  · constructor
    · intro h
      cases h
    · rintro ⟨a, _, h, _⟩
      cases h
  · constructor
    · exact fun h => ⟨a, between, rfl, h⟩
    · rintro ⟨_, _, h, hf⟩
      cases h
      exact hf

lemma gives_get {s s' seen : S} :
    Gives (get : ExceptT ε (StateM S) S) s seen s' ↔ s = seen ∧ s = s' := by
  rw [gives_iff get (.ok s, s) rfl]
  simp

lemma gives_set {s s' next : S} {u : PUnit} :
    Gives (set next : ExceptT ε (StateM S) PUnit) s u s' ↔ next = s' := by
  rw [gives_iff (set next) (.ok ⟨⟩, next) rfl]
  simp

lemma gives_modify {f : S → S} {s s' : S} {u : PUnit} :
    Gives (modify f : ExceptT ε (StateM S) PUnit) s u s' ↔ f s = s' := by
  rw [gives_iff (modify f) (.ok ⟨⟩, f s) rfl]
  simp

lemma gives_monadLift {x : StateM S α} {s s' : S} {a : α} :
    Gives (monadLift x : ExceptT ε (StateM S) α) s a s' ↔ x s = (a, s') := by
  rw [gives_iff (monadLift x) (.ok (x s).1, (x s).2) rfl, Except.ok.injEq]
  exact (Prod.ext_iff (x := x s) (y := (a, s'))).symm

end Steps

section Tasks

variable {σ ε ε' α : Type}

lemma gives_ofExcept {wrap : ε' → ε} {r : Except ε' α} {a : α} {m m' : Machine σ} :
    Gives (Task.ofExcept wrap r : Task σ ε α) m a m' ↔ r = .ok a ∧ m = m' := by
  cases r with
  | error e =>
    have hno : ¬Gives (throw (wrap e) : Task σ ε α) m a m' := gives_throw
    simp [Task.ofExcept, hno]
  | ok b => simp [Task.ofExcept, gives_pure]

lemma gives_changeFiles {wrap : FileFault → ε} {f : FileTree → Instant → Except FileFault FileTree} {u : Unit}
    {m m' : Machine σ} :
    Gives (Task.changeFiles wrap f : Task σ ε Unit) m u m' ↔
      ∃ files, f m.files m.now = .ok files ∧ { m with files } = m' := by
  unfold Task.changeFiles
  simp only [gives_bind, gives_get]
  cases hf : f m.files m.now with
  | error fault =>
    constructor
    · rintro ⟨_, _, ⟨rfl, rfl⟩, h⟩
      rw [hf] at h
      exact (gives_throw h).elim
    · rintro ⟨files, h, _⟩
      cases h
  | ok files =>
    constructor
    · rintro ⟨_, _, ⟨rfl, rfl⟩, h⟩
      rw [hf] at h
      exact ⟨files, rfl, gives_set.mp h⟩
    · rintro ⟨_, h, hm⟩
      cases h
      refine ⟨m, m, ⟨rfl, rfl⟩, ?_⟩
      rw [hf]
      exact gives_set.mpr hm

lemma gives_makeDirectories {wrap : FileFault → ε} {path : String} {u : Unit} {m m' : Machine σ} :
    Gives (Task.makeDirectories wrap path : Task σ ε Unit) m u m' ↔
      ∃ files, m.files.makeDirectories path m.now = (files, none) ∧ { m with files } = m' := by
  unfold Task.makeDirectories
  simp only [gives_bind, gives_get, gives_set]
  rcases hmake : m.files.makeDirectories path m.now with ⟨files, _ | fault⟩
  · constructor
    · rintro ⟨_, _, ⟨rfl, rfl⟩, _, _, hset, h⟩
      rw [hmake] at hset h
      rw [gives_pure] at h
      exact ⟨files, rfl, hset.trans h.2⟩
    · rintro ⟨_, h, hm⟩
      cases h
      refine ⟨m, m, ⟨rfl, rfl⟩, ⟨⟩, { m with files }, ?_, ?_⟩
      · rw [hmake]
      · rw [hmake]
        exact gives_pure.mpr ⟨rfl, hm⟩
  · constructor
    · rintro ⟨_, _, ⟨rfl, rfl⟩, _, _, _, h⟩
      rw [hmake] at h
      exact (gives_throw h).elim
    · rintro ⟨_, h, _⟩
      cases h

lemma run_changeFiles (wrap : FileFault → ε) (f : FileTree → Instant → Except FileFault FileTree) (m : Machine σ) :
    (Task.changeFiles wrap f : Task σ ε Unit) m =
      match f m.files m.now with
      | .ok files => (.ok (), { m with files })
      | .error fault => (.error (wrap fault), m) := by
  have hrun : (Task.changeFiles wrap f : Task σ ε Unit) m =
      (match f m.files m.now with
        | .ok files => set { m with files }
        | .error fault => throw (wrap fault) : Task σ ε Unit) m := rfl
  rw [hrun]
  cases f m.files m.now with
  | ok files => rfl
  | error fault => rfl

/-- What is made before a failure stays. -/
lemma run_makeDirectories (wrap : FileFault → ε) (path : String) (m : Machine σ) :
    (Task.makeDirectories wrap path : Task σ ε Unit) m =
      (match (m.files.makeDirectories path m.now).2 with
        | none => .ok ()
        | some fault => .error (wrap fault), { m with files := (m.files.makeDirectories path m.now).1 }) := by
  have hrun : (Task.makeDirectories wrap path : Task σ ε Unit) m =
      (match (m.files.makeDirectories path m.now).2 with
        | none => pure ()
        | some fault => throw (wrap fault) : Task σ ε Unit)
        { m with files := (m.files.makeDirectories path m.now).1 } := rfl
  rw [hrun]
  cases (m.files.makeDirectories path m.now).2 with
  | none => rfl
  | some fault => rfl

lemma gives_widen {wrap : ε' → ε} {task : Task σ ε' α} {a : α} {m m' : Machine σ} :
    Gives (Task.widen wrap task : Task σ ε α) m a m' ↔ Gives task m a m' := by
  unfold Gives Task.widen
  rcases task m with ⟨e | b, between⟩
  · constructor
    · intro h
      cases h
    · intro h
      cases h
  · constructor
    · intro h
      cases h
      rfl
    · intro h
      cases h
      rfl

end Tasks

end CrossBuild.Proofs
