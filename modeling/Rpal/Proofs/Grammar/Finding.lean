/-
# What rules find

`Finds p S` says that whatever a rule reads, the tokens that it takes and its result are related.
It goes through all the combinators of rules: a sequence of rules hands the tokens on that were
taken so far, and a repetition finds chunks of tokens, each with a result of its own.
-/
import Rpal.Grammar.Rule

namespace Rpal

namespace Rule

variable {α β : Type}

/-! ## 1. Steps and choices -/

/-- Whatever the rule reads, the tokens that it takes and the result are related. -/
def Finds (p : Rule α) (S : List Token → α → Prop) : Prop :=
  ∀ ls a rest, p ls = .ok (a, rest) → ∃ used, ls = used ++ rest ∧ S (used.map (·.token)) a

variable {p q : Rule α} {S T : List Token → α → Prop}

/-- A rule finds what is less specific as well. -/
theorem Finds.mono (h : Finds p S) (hST : ∀ ts a, S ts a → T ts a) : Finds p T := by
  intro ls a rest hp
  obtain ⟨used, hls, hS⟩ := h ls a rest hp
  exact ⟨used, hls, hST _ a hS⟩

/-- A rule that reads nothing finds whatever is asked for. -/
theorem finds_failAt (place : Nat) : Finds (failAt place : Rule α) S := by
  intro ls a rest h
  cases h

/-- A result that is given without reading goes with no tokens. -/
theorem finds_pure {a : α} (h : S [] a) : Finds (pure a) S := by
  intro ls b rest hb
  cases hb
  exact ⟨[], rfl, h⟩

/-- A sequence of rules: the second one finds what is missing behind the tokens of the first. -/
theorem Finds.bind {f : α → Rule β} {R : List Token → β → Prop} (hp : Finds p S)
    (hf : ∀ ts a, S ts a → Finds (f a) fun us b => R (ts ++ us) b) : Finds (p >>= f) R := by
  intro ls b rest h
  have hbind : (p >>= f) ls = (p ls >>= fun r => f r.1 r.2) := rfl
  rw [hbind] at h
  cases hr : p ls with
  | error e =>
    rw [hr] at h
    cases h
  | ok r =>
    rw [hr] at h
    obtain ⟨used, hls, hS⟩ := hp ls r.1 r.2 hr
    obtain ⟨more, hrest, hR⟩ := hf _ _ hS r.2 b rest h
    refine ⟨used ++ more, by rw [hls, hrest, List.append_assoc], ?_⟩
    rw [List.map_append]
    exact hR

/-- One token of a class. -/
theorem finds_accept (stop : Nat) {class? : Token → Option α}
    (h : ∀ t a, class? t = some a → S [t] a) : Finds (accept stop class?) S := by
  intro ls a rest hp
  cases ls with
  | nil => cases hp
  | cons l ls =>
    simp only [accept] at hp
    cases hc : class? l.token with
    | none =>
      rw [hc] at hp
      cases hp
    | some b =>
      simp only [hc, Except.ok.injEq, Prod.mk.injEq] at hp
      obtain ⟨rfl, rfl⟩ := hp
      exact ⟨[l], rfl, h l.token b hc⟩

/-- One symbol. -/
theorem finds_symbol (stop : Nat) (s : Symbol) :
    Finds (symbol stop s) fun ts _ => ts = [.symbol s] := by
  refine finds_accept stop fun t a h => ?_
  by_cases ht : t = .symbol s
  · rw [ht]
  · simp [ht] at h

/-- One reserved word. -/
theorem finds_keyword (stop : Nat) (w : Keyword) :
    Finds (keyword stop w) fun ts _ => ts = [.keyword w] := by
  intro ls a rest h
  cases ls with
  | nil => cases h
  | cons l ls =>
    by_cases hl : l.token = .keyword w
    · simp only [keyword, hl, if_true, Except.ok.injEq, Prod.mk.injEq] at h
      exact ⟨[l], by rw [h.2]; rfl, by rw [List.map_singleton, hl]⟩
    · simp [keyword, hl] at h

/-- Either alternative may have been the one that was read. -/
theorem Finds.either (hp : Finds p S) (hq : Finds q S) : Finds (either p q) S := by
  intro ls a rest h
  unfold Rule.either at h
  cases hpl : p ls with
  | ok r =>
    rw [hpl] at h
    cases h
    exact hp ls a rest hpl
  | error i =>
    cases hql : q ls with
    | ok r =>
      rw [hpl, hql] at h
      cases h
      exact hq ls a rest hql
    | error j =>
      rw [hpl, hql] at h
      cases h

/-- The same for more than two alternatives. -/
theorem Finds.oneOf {qs : List (Rule α)} (hp : Finds p S) (hqs : ∀ q ∈ qs, Finds q S) :
    Finds (oneOf p qs) S := by
  induction qs generalizing p with
  | nil => exact hp
  | cons q qs ih =>
    rw [List.forall_mem_cons] at hqs
    exact hp.either (ih hqs.1 hqs.2)

/-- An option takes either nothing or what its rule takes. -/
theorem Finds.optional (hp : Finds p S) :
    Finds (optional p) fun ts o => (ts = [] ∧ o = none) ∨ ∃ a, S ts a ∧ o = some a := by
  intro ls o rest h
  unfold Rule.optional at h
  cases hpl : p ls with
  | ok r =>
    simp only [hpl, Except.ok.injEq, Prod.mk.injEq] at h
    obtain ⟨rfl, rfl⟩ := h
    obtain ⟨used, hls, hS⟩ := hp ls r.1 r.2 hpl
    exact ⟨used, hls, .inr ⟨r.1, hS, rfl⟩⟩
  | error i =>
    rw [hpl] at h
    cases h
    exact ⟨[], rfl, .inl ⟨rfl, rfl⟩⟩

/-! ## 2. Repetitions -/

/-- Tokens that come in chunks, each with a result. -/
inductive Chunks (S : List Token → α → Prop) : List Token → List α → Prop where
  | nil : Chunks S [] []
  | cons {ts us : List Token} {a : α} {as : List α} (h : S ts a) (hs : Chunks S us as) :
      Chunks S (ts ++ us) (a :: as)

/-- A repetition takes one chunk after the other. -/
theorem Finds.many (hp : Finds p S) (room : Nat) : Finds (many room p) (Chunks S) := by
  have hrepeated : ∀ (room : Nat) (ls : List Lexeme), ∃ used,
      ls = used ++ (repeated p room ls).2 ∧
        Chunks S (used.map (·.token)) (repeated p room ls).1 := by
    intro room
    induction room with
    | zero => exact fun ls => ⟨[], rfl, .nil⟩
    | succ room ih =>
      intro ls
      simp only [repeated]
      cases hpl : p ls with
      | error i => exact ⟨[], rfl, .nil⟩
      | ok r =>
        obtain ⟨used, hls, hS⟩ := hp ls r.1 r.2 hpl
        obtain ⟨more, hrest, hchunks⟩ := ih r.2
        refine ⟨used ++ more, ?_, ?_⟩
        · rw [List.append_assoc]
          exact hls.trans (congrArg (used ++ ·) hrest)
        · rw [List.map_append]
          exact .cons hS hchunks
  intro ls as rest h
  obtain rfl : (repeated p room ls).1 = as := congrArg Prod.fst (Except.ok.inj h)
  obtain rfl : (repeated p room ls).2 = rest := congrArg Prod.snd (Except.ok.inj h)
  exact hrepeated room ls

end Rule

end Rpal
