import Mathlib.Data.List.Basic
import TypedClient.Method
import TypedClient.Proofs.Segments

/-!
# Placeholders in an address

A placeholder is a name between braces. When the names themselves are free of braces, two
placeholders never overlap, and what becomes of the beginning of an address can be read
off the placeholders it starts with.

## Main definitions

* `placeholders`: the placeholders of a list of parameters
* `BraceFree`: a name without braces

## Main results

* `placeholder_append_cases`: an occurrence of a placeholder after another one is that one
  or comes after it
* `leading_mem_iff`: when the first segment of an address is a placeholder
-/

namespace TypedClient

open Text

@[simp]
theorem toList_placeholder (name : String) :
    (placeholder name).toList = '\x7b' :: (name.toList ++ ['\x7d']) := by
  simp [placeholder]

theorem placeholder_ne_empty (name : String) : placeholder name ≠ "" := by
  simp [← String.toList_inj]

/-- The placeholders of a list of parameters. -/
def placeholders (params : List Parameter) : List String :=
  params.map (placeholder ·.name)

theorem mem_placeholders {params : List Parameter} {s : String} :
    s ∈ placeholders params ↔ ∃ p ∈ params, placeholder p.name = s := by
  simp [placeholders]

theorem ne_empty_of_mem_placeholders {params : List Parameter} :
    ∀ d ∈ placeholders params, d ≠ "" := by
  intro d hd
  obtain ⟨p, _, rfl⟩ := mem_placeholders.mp hd
  exact placeholder_ne_empty p.name

/-! ## Names without braces -/

/-- A name without braces. -/
def BraceFree (name : String) : Prop :=
  '\x7b' ∉ name.toList ∧ '\x7d' ∉ name.toList

instance (name : String) : Decidable (BraceFree name) :=
  inferInstanceAs (Decidable (_ ∧ _))

theorem append_brace_inj {a b x y : List Char} (ha : '\x7d' ∉ a) (hb : '\x7d' ∉ b)
    (h : a ++ '\x7d' :: x = b ++ '\x7d' :: y) : a = b ∧ x = y := by
  -- in both texts the first closing brace stands where the name ends
  induction a generalizing b with
  | nil =>
    cases b with
    | nil => simpa using h
    | cons c b =>
      rw [List.nil_append, List.cons_append] at h
      obtain ⟨rfl, _⟩ := List.cons.inj h
      exact absurd (List.mem_cons_self ..) hb
  | cons c a ih =>
    cases b with
    | nil =>
      rw [List.nil_append, List.cons_append] at h
      obtain ⟨rfl, _⟩ := List.cons.inj h
      exact absurd (List.mem_cons_self ..) ha
    | cons d b =>
      rw [List.cons_append, List.cons_append] at h
      obtain ⟨rfl, htail⟩ := List.cons.inj h
      obtain ⟨rfl, hxy⟩ := ih (List.not_mem_of_not_mem_cons ha)
        (List.not_mem_of_not_mem_cons hb) htail
      exact ⟨rfl, hxy⟩

/-- **Placeholders do not overlap**: a placeholder that occurs in a text after another one
is that one at the beginning, or comes after it. -/
theorem placeholder_append_cases {a b : String} (ha : BraceFree a) (hb : BraceFree b)
    {x t s : List Char}
    (h : (placeholder a).toList ++ x = t ++ (placeholder b).toList ++ s) :
    t = [] ∧ a = b ∨ ∃ u, t = (placeholder a).toList ++ u ∧
      x = u ++ (placeholder b).toList ++ s := by
  rw [List.append_assoc] at h
  -- the second placeholder starts behind the first one, or inside it
  rcases List.append_eq_append_iff.mp h with ⟨u, rfl, hu⟩ | ⟨u, hu, hs⟩
  · exact Or.inr ⟨u, rfl, by rw [hu, List.append_assoc]⟩
  · cases t with
    | nil =>
      left
      simp only [toList_placeholder, List.nil_append, List.cons_append, List.append_assoc,
        List.cons.injEq, true_and] at h
      exact ⟨rfl, String.toList_injective (append_brace_inj ha.2 hb.2 h).1⟩
    | cons c t =>
      -- a second opening brace would stand inside the name `a`
      right
      cases u with
      | nil => exact ⟨[], by simpa using hu.symm, by simpa using hs.symm⟩
      | cons d u =>
        rw [toList_placeholder] at hu hs
        obtain ⟨rfl, _⟩ := List.cons.inj hs
        have hmem : '\x7b' ∈ a.toList ++ ['\x7d'] := by
          rw [(List.cons.inj hu).2]
          simp
        exact absurd (by simpa using hmem) ha.1

/-! ## The beginning of an address -/

section Beginning

variable {params : List Parameter} {a b c : String} {t : String}

/-- Two placeholders at the beginning are not touched by cutting at a third one. -/
theorem prefix_beforeFirst (ha : BraceFree a) (hb : BraceFree b) (hc : BraceFree c)
    (hac : a ≠ c) (hbc : b ≠ c) (h : (placeholder b ++ placeholder a).toList <+: t.toList) :
    (placeholder b ++ placeholder a).toList <+: (beforeFirst (placeholder c) t).toList := by
  rcases beforeFirst_cases (placeholder_ne_empty c) t with ⟨_, heq⟩ | ⟨_, s, heq⟩
  · rwa [heq]
  · obtain ⟨r, hr⟩ := h
    generalize beforeFirst (placeholder c) t = q at heq ⊢
    rw [heq, String.toList_append, String.toList_append, String.toList_append,
      List.append_assoc] at hr
    rcases placeholder_append_cases hb hc hr with ⟨_, rfl⟩ | ⟨u, hq, hu⟩
    · exact absurd rfl hbc
    · rcases placeholder_append_cases ha hc hu with ⟨_, rfl⟩ | ⟨v, rfl, _⟩
      · exact absurd rfl hac
      · exact ⟨v, by rw [hq, String.toList_append, List.append_assoc]⟩

/-- Cutting at the second of two placeholders at the beginning leaves the first one. -/
theorem beforeFirst_eq (ha : BraceFree a) (hb : BraceFree b) (hab : b ≠ a)
    (h : (placeholder b ++ placeholder a).toList <+: t.toList) :
    beforeFirst (placeholder a) t = placeholder b := by
  obtain ⟨r, hr⟩ := h
  rcases beforeFirst_cases (placeholder_ne_empty a) t with ⟨hocc, _⟩ | ⟨hocc, s, heq⟩
  · refine absurd ?_ hocc
    rw [Occurs, ← hr, String.toList_append]
    exact List.infix_append ..
  · generalize beforeFirst (placeholder a) t = q at heq hocc ⊢
    rw [heq, String.toList_append, String.toList_append, String.toList_append,
      List.append_assoc] at hr
    rcases placeholder_append_cases hb ha hr with ⟨_, rfl⟩ | ⟨u, hq, hu⟩
    · exact absurd rfl hab
    · rcases placeholder_append_cases ha ha hu with ⟨rfl, _⟩ | ⟨v, rfl, _⟩
      · exact String.toList_injective (by simpa using hq)
      · refine absurd ?_ hocc
        rw [Occurs, hq, ← List.append_assoc]
        exact List.infix_append ..

theorem notMem_placeholders_of_startsWith (hfree : ∀ p ∈ params, BraceFree p.name)
    (h : (placeholder b ++ placeholder a).toList <+: t.toList) : t ∉ placeholders params := by
  intro hm
  obtain ⟨p, hp, rfl⟩ := mem_placeholders.mp hm
  obtain ⟨r, hr⟩ := h
  have htail := congrArg List.tail hr
  have hmem : '\x7b' ∈ p.name.toList ++ ['\x7d'] := by
    simp only [String.toList_append, toList_placeholder, List.cons_append, List.tail_cons]
      at htail
    rw [← htail]
    simp
  exact absurd (by simpa using hmem) (hfree p hp).1

/-- The two placeholders stay at the beginning until the second one has its turn. -/
theorem leading_eq (hfree : ∀ p ∈ params, BraceFree p.name) {before after : List String}
    (hsub : before ⊆ placeholders params) (ha : BraceFree a) (hb : BraceFree b) (hab : b ≠ a)
    (hma : placeholder a ∉ before) (hmb : placeholder b ∉ before)
    (hbm : placeholder b ∈ placeholders params)
    (h : (placeholder b ++ placeholder a).toList <+: t.toList) :
    leading (placeholders params) (before ++ placeholder a :: after) t = placeholder b := by
  -- until then the text only gets shorter at its end
  induction before generalizing t with
  | nil =>
    rw [List.nil_append, leading_cons, if_neg (notMem_placeholders_of_startsWith hfree h),
      beforeFirst_eq ha hb hab h]
    exact leading_of_mem hbm
  | cons d before ih =>
    obtain ⟨p, hp, rfl⟩ := mem_placeholders.mp (hsub (List.mem_cons_self ..))
    rw [List.cons_append, leading_cons, if_neg (notMem_placeholders_of_startsWith hfree h)]
    refine ih (fun d hd => hsub (List.mem_cons_of_mem _ hd))
      (List.not_mem_of_not_mem_cons hma) (List.not_mem_of_not_mem_cons hmb) ?_
    refine prefix_beforeFirst ha hb (hfree p hp) ?_ ?_ h
    · rintro rfl
      exact hma (List.mem_cons_self ..)
    · rintro rfl
      exact hmb (List.mem_cons_self ..)

/-- **When the first segment of an address is a placeholder**: the address is just that
placeholder, or starts with two placeholders out of order. -/
theorem leading_mem_iff (hfree : ∀ p ∈ params, BraceFree p.name) (text : String) :
    leading (placeholders params) (placeholders params) text ∈ placeholders params ↔
      text ∈ placeholders params ∨ StartsOutOfOrder (placeholders params) text := by
  constructor
  · intro h
    by_cases ht : text ∈ placeholders params
    · exact Or.inl ht
    · exact Or.inr (startsOutOfOrder_of_leading (List.nil_append _).symm
        ne_empty_of_mem_placeholders List.prefix_rfl ht (fun _ hd => nomatch hd) h)
  · rintro (ht | ⟨d, hd, e, he, hlt, hpre⟩)
    · rwa [leading_of_mem ht]
    · obtain ⟨p, hp, rfl⟩ := mem_placeholders.mp hd
      obtain ⟨q, hq, rfl⟩ := mem_placeholders.mp he
      obtain ⟨before, after, heq, hnot⟩ := List.eq_append_cons_of_mem hd
      have hidx : (placeholders params).idxOf (placeholder p.name) = before.length := by
        rw [heq, List.idxOf_append, if_neg hnot]
        simp
      have hqb : placeholder q.name ∉ before := by
        intro hm
        have hlen := List.idxOf_lt_length_iff.mpr hm
        rw [hidx, heq, List.idxOf_append, if_pos hm] at hlt
        omega
      have hqp : q.name ≠ p.name := by
        intro hn
        rw [hn] at hlt
        exact Nat.lt_irrefl _ hlt
      have hsub : before ⊆ placeholders params :=
        fun d hd => heq ▸ List.mem_append_left _ hd
      have hlead : leading (placeholders params) (before ++ placeholder p.name :: after) text =
          placeholder q.name :=
        leading_eq hfree hsub (hfree p hp) (hfree q hq) hqp hnot hqb he hpre
      rw [← heq] at hlead
      rwa [hlead]

end Beginning

end TypedClient
