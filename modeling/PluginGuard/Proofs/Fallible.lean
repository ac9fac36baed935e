/-!
# Steps that can fail

What a sequence of steps gave, or how it failed, step by step. The steps go on to the first that
fails, whatever it is that they fail with.
-/
namespace PluginGuard.Fallible

variable {ε α β : Type}

theorem bind_eq_ok {x : Except ε α} {f : α → Except ε β} {b : β} :
    (x >>= f) = .ok b ↔ ∃ a, x = .ok a ∧ f a = .ok b := by
  cases x with
  | error e => simp [bind, Except.bind]
  | ok a => simp [bind, Except.bind]

theorem bind_eq_error {x : Except ε α} {f : α → Except ε β} {e : ε} :
    (x >>= f) = .error e ↔ x = .error e ∨ ∃ a, x = .ok a ∧ f a = .error e := by
  cases x with
  | error e => simp [bind, Except.bind]
  | ok a => simp [bind, Except.bind]

theorem pure_eq_ok {a b : α} : (pure a : Except ε α) = .ok b ↔ b = a := by
  simp [pure, Except.pure, eq_comm]

theorem mapError_eq_ok {ε' : Type} {g : ε → ε'} {x : Except ε α} {a : α} :
    x.mapError g = .ok a ↔ x = .ok a := by
  cases x with
  | error e => exact iff_of_false nofun nofun
  | ok b =>
    constructor
    · intro h
      cases h
      rfl
    · intro h
      cases h
      rfl

/-- Results compare as options, which have decidable equality. -/
theorem eq_ok_of_toOption {x : Except ε α} {a : α} (h : x.toOption = some a) :
    x = .ok a := by
  cases x with
  | error e => cases h
  | ok b =>
    cases h
    rfl

theorem mapM_eq_ok {f : α → Except ε β} {as : List α} {bs : List β} :
    as.mapM f = .ok bs ↔
      bs.length = as.length ∧
        ∀ (k : Nat) (a : α) (b : β), as[k]? = some a → bs[k]? = some b → f a = .ok b := by
  induction as generalizing bs with
  | nil => simp [pure_eq_ok]
  | cons a as ih =>
    simp only [List.mapM_cons, bind_eq_ok, pure_eq_ok, ih]
    constructor
    · intro h
      rcases h with ⟨b, hb, bs, ⟨hlength, hall⟩, rfl⟩
      refine ⟨by simp [hlength], fun k => ?_⟩
      cases k with
      | zero =>
        rintro _ _ ⟨⟩ ⟨⟩
        exact hb
      | succ k => simpa using hall k
    · intro h
      rcases h with ⟨hlength, hall⟩
      cases bs with
      | nil => cases hlength
      | cons b bs =>
        refine ⟨b, hall 0 a b rfl rfl, bs, ⟨Nat.succ.inj hlength, fun k => ?_⟩, rfl⟩
        simpa using hall (k + 1)

theorem exists_mapM_eq_ok {f : α → Except ε β} {as : List α}
    (h : ∀ a ∈ as, ∃ b, f a = .ok b) : ∃ bs, as.mapM f = .ok bs := by
  induction as with
  | nil => exact ⟨[], rfl⟩
  | cons a as ih =>
    obtain ⟨⟨b, hb⟩, htail⟩ := List.forall_mem_cons.mp h
    obtain ⟨bs, hbs⟩ := ih htail
    refine ⟨b :: bs, ?_⟩
    simp only [List.mapM_cons, bind_eq_ok, pure_eq_ok]
    exact ⟨b, hb, bs, hbs, rfl⟩

theorem exists_of_mapM_eq_error {f : α → Except ε β} {as : List α} {e : ε}
    (h : as.mapM f = .error e) : ∃ a ∈ as, f a = .error e := by
  induction as with
  | nil => cases h
  | cons a as ih =>
    rw [List.mapM_cons] at h
    obtain hfirst | ⟨b, -, hrest⟩ := bind_eq_error.mp h
    · exact ⟨a, List.mem_cons_self, hfirst⟩
    · obtain hrest | ⟨bs, -, hpure⟩ := bind_eq_error.mp hrest
      · obtain ⟨a', ha', hfails⟩ := ih hrest
        exact ⟨a', List.mem_cons_of_mem _ ha', hfails⟩
      · cases hpure

end PluginGuard.Fallible
