import Desenredo.Library.Except

/-!
# Complete-input parsers

A parser takes a list of symbols to what it leaves of the list and the value it read, or to
an error. `Reads p used a` says that `p` reads exactly the symbols `used` as `a`, whatever
follows them. A parser is `Local` when every success is of this kind: it looks at nothing
behind what it reads. Both notions go through sequencing, so a record parser inherits them
from its fields.
-/

/-- A parser that returns the remaining input together with the value read. -/
abbrev Parser (ε β α : Type*) := List β → Except ε (List β × α)

namespace Parser

universe u v

variable {ε : Type u} {β α γ : Type v}

/-- `p` reads exactly `used` as `a`, whatever follows. -/
def Reads (p : Parser ε β α) (used : List β) (a : α) : Prop :=
  ∀ rest, p (used ++ rest) = .ok (rest, a)

/-- Every success of `p` depends only on the symbols it has read. -/
def Local (p : Parser ε β α) : Prop :=
  ∀ input rest a, p input = .ok (rest, a) → ∃ used, input = used ++ rest ∧ Reads p used a

/-- Run `p`, then run on the rest the parser its value selects. -/
def andThen (p : Parser ε β α) (q : α → Parser ε β γ) : Parser ε β γ := fun input => do
  let (rest, a) ← p input
  q a rest

/-- Run `p` and refine its value by a function that may fail. -/
def refine (p : Parser ε β α) (f : α → Except ε γ) : Parser ε β γ := fun input => do
  let (rest, a) ← p input
  let c ← f a
  .ok (rest, c)

/-- Run `p` and apply a function to its value. -/
def map (p : Parser ε β α) (f : α → γ) : Parser ε β γ := p.refine fun a => .ok (f a)

/-- Reject every input. -/
def fail (e : ε) : Parser ε β α := fun _ => .error e

theorem andThen_eq_ok {p : Parser ε β α} {q : α → Parser ε β γ} {input rest : List β} {c : γ} :
    p.andThen q input = .ok (rest, c) ↔
      ∃ middle a, p input = .ok (middle, a) ∧ q a middle = .ok (rest, c) := by
  rw [andThen, Except.bind_eq_ok_iff, Prod.exists]

theorem refine_eq_ok {p : Parser ε β α} {f : α → Except ε γ} {input rest : List β} {c : γ} :
    p.refine f input = .ok (rest, c) ↔ ∃ a, p input = .ok (rest, a) ∧ f a = .ok c := by
  simp only [refine, Except.bind_eq_ok_iff, Prod.exists, Except.ok.injEq, Prod.mk.injEq]
  constructor
  · rintro ⟨middle, a, hpa, c', hfa, rfl, rfl⟩
    exact ⟨a, hpa, hfa⟩
  · rintro ⟨a, hpa, hfa⟩
    exact ⟨rest, a, hpa, c, hfa, rfl, rfl⟩

theorem map_eq_ok {p : Parser ε β α} {f : α → γ} {input rest : List β} {c : γ} :
    p.map f input = .ok (rest, c) ↔ ∃ a, p input = .ok (rest, a) ∧ f a = c := by
  simp only [map, refine_eq_ok, Except.ok.injEq]

theorem map_map {δ : Type v} (p : Parser ε β α) (f : α → γ) (g : γ → δ) :
    (p.map f).map g = p.map fun a => g (f a) := by
  funext input
  simp only [map, refine, bind_assoc, Except.bind_ok]

/-! ## Reading -/

theorem Reads.andThen {p : Parser ε β α} {q : α → Parser ε β γ} {used more : List β}
    {a : α} {c : γ} (hp : Reads p used a) (hq : Reads (q a) more c) :
    Reads (p.andThen q) (used ++ more) c := by
  intro rest
  rw [List.append_assoc]
  exact andThen_eq_ok.2 ⟨_, a, hp _, hq rest⟩

theorem Reads.refine {p : Parser ε β α} {f : α → Except ε γ} {used : List β} {a : α} {c : γ}
    (hp : Reads p used a) (hf : f a = .ok c) : Reads (p.refine f) used c :=
  fun rest => refine_eq_ok.2 ⟨a, hp rest, hf⟩

theorem Reads.map {p : Parser ε β α} {used : List β} {a : α} (hp : Reads p used a)
    (f : α → γ) : Reads (p.map f) used (f a) :=
  hp.refine rfl

/-! ## Locality -/

theorem Local.refine {p : Parser ε β α} {f : α → Except ε γ} (hp : Local p) :
    Local (p.refine f) := by
  intro input rest c h
  obtain ⟨a, hpa, hfa⟩ := refine_eq_ok.1 h
  obtain ⟨used, rfl, hused⟩ := hp _ _ _ hpa
  exact ⟨used, rfl, hused.refine hfa⟩

theorem Local.fail (e : ε) : Local (fail e : Parser ε β α) := by
  intro input rest a h
  cases h

/-- A local parser does not notice symbols behind the input it succeeded on. -/
theorem Local.append {p : Parser ε β α} (hp : Local p) {input rest : List β} {a : α}
    (h : p input = .ok (rest, a)) (tail : List β) :
    p (input ++ tail) = .ok (rest ++ tail, a) := by
  obtain ⟨used, rfl, hused⟩ := hp _ _ _ h
  rw [List.append_assoc, hused]

/-- What a local parser leaves is a suffix of its input. -/
theorem Local.suffix {p : Parser ε β α} (hp : Local p) {input rest : List β} {a : α}
    (h : p input = .ok (rest, a)) : rest <:+ input := by
  obtain ⟨used, rfl, -⟩ := hp _ _ _ h
  exact List.suffix_append used rest

/-! ## Progress -/

/-- `p` reads at least `n` symbols whenever it succeeds. -/
def Consumes (p : Parser ε β α) (n : ℕ) : Prop :=
  ∀ input rest a, p input = .ok (rest, a) → rest.length + n ≤ input.length

theorem Consumes.fail (e : ε) (n : ℕ) : Consumes (fail e : Parser ε β α) n := by
  intro input rest a h
  cases h

theorem Consumes.mono {p : Parser ε β α} {n m : ℕ} (h : Consumes p n) (hm : m ≤ n) :
    Consumes p m := by
  intro input rest a hp
  have := h _ _ _ hp
  omega

theorem Consumes.andThen {p : Parser ε β α} {q : α → Parser ε β γ} {n m : ℕ}
    (hp : Consumes p n) (hq : ∀ a, Consumes (q a) m) : Consumes (p.andThen q) (n + m) := by
  intro input rest c h
  obtain ⟨middle, a, hpa, hqc⟩ := andThen_eq_ok.1 h
  have h₁ := hp _ _ _ hpa
  have h₂ := hq a _ _ _ hqc
  omega

theorem Consumes.refine {p : Parser ε β α} {f : α → Except ε γ} {n : ℕ}
    (hp : Consumes p n) : Consumes (p.refine f) n := by
  intro input rest c h
  obtain ⟨a, hpa, -⟩ := refine_eq_ok.1 h
  exact hp _ _ _ hpa

/-! ## Failure -/

/-- Every failure of `p` satisfies `E`. -/
def Raises (p : Parser ε β α) (E : ε → Prop) : Prop := ∀ input e, p input = .error e → E e

section

variable {p : Parser ε β α} {E : ε → Prop}

theorem Raises.fail {e : ε} (h : E e) : Raises (fail e : Parser ε β α) E := by
  intro input e' hfail
  exact Except.error.inj hfail ▸ h

theorem Raises.andThen {q : α → Parser ε β γ} (hp : Raises p E) (hq : ∀ a, Raises (q a) E) :
    Raises (p.andThen q) E := by
  intro input e h
  rcases Except.bind_eq_error_iff.1 h with h | ⟨⟨rest, a⟩, -, h⟩
  · exact hp _ _ h
  · exact hq a _ _ h

theorem Raises.refine {f : α → Except ε γ} (hp : Raises p E) (hf : ∀ a e, f a = .error e → E e) :
    Raises (p.refine f) E := by
  intro input e h
  rcases Except.bind_eq_error_iff.1 h with h | ⟨⟨rest, a⟩, -, h⟩
  · exact hp _ _ h
  · rcases Except.bind_eq_error_iff.1 h with h | ⟨c, -, h⟩
    · exact hf a _ h
    · cases h

theorem Raises.map (hp : Raises p E) (f : α → γ) : Raises (p.map f) E :=
  hp.refine fun _ _ h => by cases h

end

end Parser
