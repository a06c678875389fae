import UnitCalculator.Failure

/-!
# Outcomes of several steps

A computation of several steps has a result exactly when all its steps have one, and it fails as one
of its steps does. Two computations agree if both fail or both have results that are related; steps
that agree can follow each other.
-/

namespace UnitCalculator

variable {ε α β : Type} {x : Except ε α} {f : α → Except ε β}

/-- Two steps have a result exactly when the first one has a result with which the second has. -/
theorem bind_eq_ok_iff {b : β} : x >>= f = .ok b ↔ ∃ a, x = .ok a ∧ f a = .ok b := by
  cases x with
  | error failure => simp [bind, Except.bind]
  | ok a => simp [bind, Except.bind]

/-- A mapped result comes from a result. -/
theorem map_eq_ok_iff {g : α → β} {b : β} : x.map g = .ok b ↔ ∃ a, x = .ok a ∧ g a = b := by
  cases x with
  | error failure => simp [Except.map]
  | ok a => simp [Except.map]

/-- A given result is the result that it gives. -/
theorem pure_eq_ok_iff {a b : α} : (pure a : Except ε α) = .ok b ↔ a = b := by
  simp [pure, Except.pure]

section

variable {γ : Type} {g : α → Except ε β} {as : List α} {bs : List β}

/-- Steps over a list have a first result, and results behind it, if all steps have one. -/
theorem mapM_cons_eq_ok_iff {a : α} :
    (a :: as).mapM g = .ok bs ↔
      ∃ b rest, g a = .ok b ∧ as.mapM g = .ok rest ∧ bs = b :: rest := by
  rw [List.mapM_cons]
  constructor
  · intro h
    obtain ⟨b, hf, h⟩ := bind_eq_ok_iff.mp h
    obtain ⟨rest, hr, h⟩ := bind_eq_ok_iff.mp h
    exact ⟨b, rest, hf, hr, (pure_eq_ok_iff.mp h).symm⟩
  · rintro ⟨b, rest, hf, hr, rfl⟩
    exact bind_eq_ok_iff.mpr ⟨b, hf, bind_eq_ok_iff.mpr ⟨rest, hr, rfl⟩⟩

/-- Every result of steps over a list comes from a member. -/
theorem exists_of_mem_mapM (h : as.mapM g = .ok bs) {b : β} (hb : b ∈ bs) :
    ∃ a ∈ as, g a = .ok b := by
  induction as generalizing bs with
  | nil =>
    cases h
    cases hb
  | cons a as ih =>
    obtain ⟨first, rest, hf, hr, rfl⟩ := mapM_cons_eq_ok_iff.mp h
    rcases List.mem_cons.mp hb with rfl | hb
    · exact ⟨a, by simp, hf⟩
    · obtain ⟨other, ho, hb⟩ := ih hr hb
      exact ⟨other, List.mem_cons_of_mem _ ho, hb⟩

/-- Every member has a result among those of steps over a list. -/
theorem exists_mem_of_mapM (h : as.mapM g = .ok bs) {a : α} (ha : a ∈ as) :
    ∃ b ∈ bs, g a = .ok b := by
  induction as generalizing bs with
  | nil => cases ha
  | cons first as ih =>
    obtain ⟨b, rest, hf, hr, rfl⟩ := mapM_cons_eq_ok_iff.mp h
    rcases List.mem_cons.mp ha with rfl | ha
    · exact ⟨b, by simp, hf⟩
    · obtain ⟨other, ho, hb⟩ := ih hr ha
      exact ⟨other, List.mem_cons_of_mem _ ho, hb⟩

/-- What every step keeps is kept over a list. -/
theorem map_of_mapM {k : α → γ} {l : β → γ} (hk : ∀ a b, g a = .ok b → l b = k a)
    (h : as.mapM g = .ok bs) : bs.map l = as.map k := by
  induction as generalizing bs with
  | nil =>
    cases h
    rfl
  | cons a as ih =>
    obtain ⟨b, rest, hf, hr, rfl⟩ := mapM_cons_eq_ok_iff.mp h
    rw [List.map_cons, List.map_cons, hk a b hf, ih hr]

/-- Steps over a list have results exactly when every one of them has. -/
theorem exists_mapM_iff : (∃ bs, as.mapM g = .ok bs) ↔ ∀ a ∈ as, ∃ b, g a = .ok b := by
  induction as with
  | nil =>
    refine ⟨fun _ a ha => ?_, fun _ => ⟨[], rfl⟩⟩
    cases ha
  | cons a as ih =>
    rw [List.forall_mem_cons, ← ih]
    constructor
    · rintro ⟨bs, h⟩
      obtain ⟨b, rest, hf, hr, -⟩ := mapM_cons_eq_ok_iff.mp h
      exact ⟨⟨b, hf⟩, rest, hr⟩
    · rintro ⟨⟨b, hf⟩, rest, hr⟩
      exact ⟨b :: rest, mapM_cons_eq_ok_iff.mpr ⟨b, rest, hf, hr, rfl⟩⟩

end

/-- Every failure of a computation is of a certain sort. -/
def FailsBy {α : Type} (p : Failure → Prop) (x : Outcome α) : Prop :=
  ∀ failure, x = .error failure → p failure

section

variable {α β : Type} {p : Failure → Prop}

/-- A result is no failure. -/
theorem failsBy_ok (a : α) : FailsBy p (.ok a : Outcome α) := by
  intro failure h
  cases h

/-- A failure of the sort. -/
theorem failsBy_error {failure : Failure} (h : p failure) :
    FailsBy p (.error failure : Outcome α) := by
  intro other ho
  exact Except.error.inj ho ▸ h

/-- Failures of a sort are of every wider sort. -/
theorem FailsBy.mono {x : Outcome α} (hx : FailsBy p x) {q : Failure → Prop}
    (h : ∀ failure, p failure → q failure) : FailsBy q x :=
  fun failure hf => h failure (hx failure hf)

/-- Two steps fail as one of them does. -/
theorem FailsBy.bind {x : Outcome α} {f : α → Outcome β} (hx : FailsBy p x)
    (hf : ∀ a, x = .ok a → FailsBy p (f a)) : FailsBy p (x >>= f) := by
  cases x with
  | error failure => exact failsBy_error (hx failure rfl)
  | ok a => exact hf a rfl

/-- A signal that is passed on is the only failure of a decimal result. -/
theorem failsBy_ofSignal (x : Except Signal α) (h : ∀ signal, p (.signal signal)) :
    FailsBy p (ofSignal x) := by
  cases x with
  | error signal => exact failsBy_error (h signal)
  | ok a => exact failsBy_ok a

/-- A signal that becomes a fault is a division by zero or an argument outside the domain. -/
theorem failsBy_within (operation : String) (x : Except Signal α)
    (hz : ∀ cause, p (.of (.divisionByZero cause)))
    (hd : ∀ cause, p (.of (.outsideDomain cause))) : FailsBy p (within operation x) := by
  cases x with
  | error signal =>
    cases signal with
    | divisionByZero => exact failsBy_error (hz _)
    | invalidOperation => exact failsBy_error (hd _)
    | overflow => exact failsBy_error (hd _)
  | ok a => exact failsBy_ok a

end

/-- Both computations fail, or both have results that are related. -/
inductive Agree {ε α : Type} (r : α → α → Prop) : Except ε α → Except ε α → Prop where
  /-- Both fail. -/
  | error (e e' : ε) : Agree r (.error e) (.error e')
  /-- Both have results. -/
  | ok {a b : α} (h : r a b) : Agree r (.ok a) (.ok b)

section

variable {ε α β : Type} {r : α → α → Prop} {s : β → β → Prop} {x y z : Except ε α}

/-- A computation agrees with itself. -/
theorem Agree.refl (hr : ∀ a, r a a) (x : Except ε α) : Agree r x x := by
  cases x with
  | error failure => exact .error _ _
  | ok a => exact .ok (hr a)

/-- Agreement is passed on. -/
theorem Agree.trans (hr : ∀ a b c, r a b → r b c → r a c) (hxy : Agree r x y)
    (hyz : Agree r y z) : Agree r x z := by
  cases hxy with
  | error e e' =>
    cases hyz with
    | error _ e'' => exact .error _ _
  | ok hab =>
    cases hyz with
    | ok hbc => exact .ok (hr _ _ _ hab hbc)

/-- Computations that agree can be followed by steps that agree on related results. -/
theorem Agree.bind (hxy : Agree r x y) {f g : α → Except ε β}
    (hfg : ∀ a b, r a b → Agree s (f a) (g b)) : Agree s (x >>= f) (y >>= g) := by
  cases hxy with
  | error e e' => exact .error _ _
  | ok hab => exact hfg _ _ hab

end

/-- Both computations fail in the same way, or both have results that are related. -/
inductive Concur {ε α β : Type} (r : α → β → Prop) : Except ε α → Except ε β → Prop where
  /-- Both fail, and for the same reason. -/
  | error (e : ε) : Concur r (.error e) (.error e)
  /-- Both have results. -/
  | ok {a : α} {b : β} (h : r a b) : Concur r (.ok a) (.ok b)

section

variable {ε α β γ δ : Type} {r : α → β → Prop} {s : γ → δ → Prop} {x : Except ε α} {y : Except ε β}

/-- Computations that concur can be followed by steps that concur on related results. -/
theorem Concur.bind (hxy : Concur r x y) {f : α → Except ε γ} {g : β → Except ε δ}
    (hfg : ∀ a b, r a b → Concur s (f a) (g b)) : Concur s (x.bind f) (y.bind g) := by
  cases hxy with
  | error e => exact .error e
  | ok hab => exact hfg _ _ hab

/-- Results that are related can be changed into such results. -/
theorem Concur.map (hxy : Concur r x y) {f : α → γ} {g : β → δ}
    (hfg : ∀ a b, r a b → s (f a) (g b)) : Concur s (x.map f) (y.map g) := by
  cases hxy with
  | error e => exact .error e
  | ok hab => exact .ok (hfg _ _ hab)

/-- Computations that concur have the same outcome if related results are continued alike. -/
theorem Concur.bind_eq (hxy : Concur r x y) {f : α → Except ε γ} {g : β → Except ε γ}
    (hfg : ∀ a b, r a b → f a = g b) : x.bind f = y.bind g := by
  cases hxy with
  | error e => rfl
  | ok hab => exact hfg _ _ hab

end

/-- A decimal result agrees when its signal is passed on. -/
theorem Agree.ofSignal {α : Type} {r : α → α → Prop} {x y : Except Signal α}
    (h : Agree r x y) : Agree r (UnitCalculator.ofSignal x) (UnitCalculator.ofSignal y) := by
  cases h with
  | error e e' => exact .error _ _
  | ok hab => exact .ok hab

/-- A signal that becomes a fault is an error. -/
theorem exists_of_within (α : Type) (operation : String) (signal : Signal) :
    ∃ failure, within operation (.error signal : Except Signal α) = .error failure := by
  cases signal <;> exact ⟨_, rfl⟩

/-- A decimal result agrees when its signal becomes a fault. -/
theorem Agree.within {α : Type} {r : α → α → Prop} {x y : Except Signal α} (operation : String)
    (h : Agree r x y) :
    Agree r (UnitCalculator.within operation x) (UnitCalculator.within operation y) := by
  cases h with
  | error e e' =>
    obtain ⟨_, he⟩ := exists_of_within α operation e
    obtain ⟨_, he'⟩ := exists_of_within α operation e'
    rw [he, he']
    exact .error _ _
  | ok hab => exact .ok hab

end UnitCalculator
