import TypedClient.Text.Split

/-!
# Laws of cutting text

Cutting at a separator is inverse to putting the separator between the texts, and none of
the texts contains it.

## Main definitions

* `Text.Occurs`: one text is a part of another
* `Text.Cut`: texts that make up a text with separators between them and contain none
* `Text.LinesOf`: the lines a text is made of

## Main results

* `Text.takeWhile_append`, `Text.dropWhile_append`: a run of characters of a class ends
  before a character of none
* `Text.pieces_append`: the two sides of a character of the class are cut on their own
* `Text.pieces_eq_splitOnP`, `Text.forall_mem_pieces`: the runs between the characters of a class
  are those of the library, and free of such characters
* `Text.occursIn_iff`: the test of occurrence decides the relation
* `Text.cut_splitOn`: `splitOn` cuts a text at every occurrence of a separator
* `Text.linesOf_iff`: `lines` gives the lines a text is made of
* `Text.lines_flatMap`: lines ended by line feeds are the lines of the whole text
-/

namespace TypedClient.Text

/-! ## Runs of characters -/

section Runs

variable {p : Char → Bool} {run rest : List Char}

theorem takeWhile_append (hrun : ∀ c ∈ run, p c) (hrest : ∀ c ∈ rest.head?, p c = false) :
    (run ++ rest).takeWhile p = run := by
  have hstop : rest.takeWhile p = [] := by
    cases rest with
    | nil => rfl
    | cons c s => simp [hrest c rfl]
  rw [List.takeWhile_append_of_pos hrun, hstop, List.append_nil]

theorem dropWhile_append (hrun : ∀ c ∈ run, p c) (hrest : ∀ c ∈ rest.head?, p c = false) :
    (run ++ rest).dropWhile p = rest := by
  have hstop : rest.dropWhile p = rest := by
    cases rest with
    | nil => rfl
    | cons c s => simp [hrest c rfl]
  rw [List.dropWhile_append_of_pos hrun, hstop]

end Runs

/-! ## Cutting at every character of a class -/

section Pieces

variable {p : Char → Bool} {c : Char} {s : List Char}

theorem pieces_ne_nil (p : Char → Bool) (s : List Char) : pieces p s ≠ [] := by
  cases s with
  | nil => exact List.cons_ne_nil _ _
  | cons c s =>
    rw [pieces]
    split
    · exact List.cons_ne_nil _ _
    · cases pieces p s <;> exact List.cons_ne_nil _ _

theorem pieces_of_forall (h : ∀ c ∈ s, p c = false) : pieces p s = [s] := by
  induction s with
  | nil => rfl
  | cons c s ih =>
    obtain ⟨hc, hs⟩ := List.forall_mem_cons.mp h
    rw [pieces, hc, ih hs]
    rfl

theorem pieces_append (hc : p c = true) (s rest : List Char) :
    pieces p (s ++ c :: rest) = pieces p s ++ pieces p rest := by
  induction s with
  | nil => simp [pieces, hc]
  | cons d s ih =>
    rw [List.cons_append, pieces, pieces, ih]
    split
    · rfl
    · obtain ⟨t, ts, hts⟩ := List.exists_cons_of_ne_nil (pieces_ne_nil p s)
      rw [hts]
      rfl

theorem forall_mem_pieces (p : Char → Bool) (s : List Char) :
    ∀ t ∈ pieces p s, ∀ d ∈ t, p d = false := by
  induction s with
  | nil => simp [pieces]
  | cons c s ih =>
    rw [pieces]
    split
    · exact List.forall_mem_cons.mpr ⟨nofun, ih⟩
    · next hc =>
      obtain ⟨t, ts, hts⟩ := List.exists_cons_of_ne_nil (pieces_ne_nil p s)
      rw [hts] at ih ⊢
      obtain ⟨ht, hrest⟩ := List.forall_mem_cons.mp ih
      exact List.forall_mem_cons.mpr
        ⟨List.forall_mem_cons.mpr ⟨Bool.eq_false_iff.mpr hc, ht⟩, hrest⟩

theorem pieces_eq_splitOnP (p : Char → Bool) (s : List Char) : pieces p s = s.splitOnP p := by
  induction s with
  | nil => rfl
  | cons c s ih =>
    rw [pieces, List.splitOnP_cons_eq_if_modifyHead, ih]
    obtain ⟨t, ts, hts⟩ := List.exists_cons_of_ne_nil (List.splitOnP_ne_nil p s)
    rw [hts]
    rfl

end Pieces

/-! ## Occurrence -/

theorem occursIn_iff {part s : List Char} : occursIn part s = true ↔ part <:+: s := by
  induction s with
  | nil => simp [occursIn]
  | cons c s ih =>
    rw [occursIn, Bool.or_eq_true, List.isPrefixOf_iff_prefix, ih, List.infix_cons_iff]

/-- One text is a part of another, without a gap. -/
def Occurs (part s : String) : Prop :=
  part.toList <:+: s.toList

theorem occursIn_toList_iff {part s : String} :
    occursIn part.toList s.toList = true ↔ Occurs part s :=
  occursIn_iff

instance (part s : String) : Decidable (Occurs part s) :=
  decidable_of_iff _ occursIn_toList_iff

theorem Occurs.trans {a b c : String} (hab : Occurs a b) (hbc : Occurs b c) : Occurs a c :=
  List.IsInfix.trans hab hbc

/-! ## Cutting at a separator -/

/-- The texts `ts` make up `s` when the separator is put between each two of them, and
none of them contains the separator. -/
inductive Cut (sep : List Char) : List Char → List (List Char) → Prop
  | whole {t : List Char} (ht : ¬ sep <:+: t) : Cut sep t [t]
  | next {t s : List Char} {ts : List (List Char)} (ht : ¬ sep <:+: t) (hs : Cut sep s ts) :
      Cut sep (t ++ sep ++ s) (t :: ts)

namespace Cut

variable {sep s : List Char} {ts : List (List Char)}

theorem ne_nil (h : Cut sep s ts) : ts ≠ [] := by
  cases h <;> simp

/-- One more character in front, where no separator begins. -/
theorem consHead {c : Char} (h : Cut sep s ts) (hc : ¬ sep <+: c :: s) :
    Cut sep (c :: s) (Text.consHead c ts) := by
  cases h with
  | whole ht =>
    apply Cut.whole
    intro hi
    exact (List.infix_cons_iff.mp hi).elim hc ht
  | @next t s ts ht hs =>
    have hct : ¬ sep <:+: c :: t := by
      intro hi
      rcases List.infix_cons_iff.mp hi with hp | hi
      · exact hc (by simpa using hp.trans (List.prefix_append (c :: t) (sep ++ s)))
      · exact ht hi
    exact Cut.next hct hs

/-- The texts with the separator between each two of them are the whole text. -/
theorem flatten_intersperse (h : Cut sep s ts) : (ts.intersperse sep).flatten = s := by
  induction h with
  | whole _ => simp
  | @next t s ts _ hs ih =>
    obtain ⟨u, us, rfl⟩ := List.exists_cons_of_ne_nil hs.ne_nil
    simp [List.intersperse_cons_cons, ih]

/-- No text contains the separator. -/
theorem infix_free (h : Cut sep s ts) : ∀ t ∈ ts, ¬ sep <:+: t := by
  induction h with
  | whole ht => simpa using ht
  | next ht _ ih => simpa using ⟨ht, ih⟩

end Cut

theorem cut_splitFrom {sep : List Char} (hsep : sep ≠ []) (s : List Char) (skip : Nat) :
    Cut sep (s.drop skip) (splitFrom sep skip s) := by
  induction s generalizing skip with
  | nil => cases skip <;> exact .whole (by simpa using hsep)
  | cons c s ih =>
    cases skip with
    | succ skip => exact ih skip
    | zero =>
      rw [splitFrom, List.drop_zero]
      split
      · next hp =>
        obtain ⟨r, hr⟩ := List.isPrefixOf_iff_prefix.mp hp
        have hd : s.drop (sep.length - 1) = r := by
          obtain ⟨x, xs, rfl⟩ := List.exists_cons_of_ne_nil hsep
          obtain ⟨rfl, rfl⟩ := List.cons.inj hr
          simp
        have hcut := ih (sep.length - 1)
        rw [hd] at hcut
        rw [← hr]
        have hnil : ¬ sep <:+: [] := by simpa using hsep
        exact Cut.next hnil hcut
      · next hp => exact (ih 0).consHead fun h => hp (List.isPrefixOf_iff_prefix.mpr h)

/-- **A text is cut at every occurrence of a separator**: the texts between make it up
again, and none of them contains the separator. -/
theorem cut_splitOn {sep : List Char} (hsep : sep ≠ []) (s : List Char) :
    Cut sep s (splitOn sep s) :=
  cut_splitFrom hsep s 0

/-! ## Lines -/

/-- A text that can be a line: no line feed is in it, and it does not end with the carriage
return that would belong to the end of the line. -/
def IsLine (line : List Char) : Prop :=
  '\n' ∉ line ∧ line.getLast? ≠ some '\r'

theorem lines_newline (s : List Char) : lines ('\n' :: s) = [] :: lines s := by
  rw [lines]

theorem lines_cons {c : Char} {s : List Char} (hn : c ≠ '\n')
    (hr : c = '\r' → s.head? ≠ some '\n') :
    lines (c :: s) = consHead c (lines s) := by
  rw [lines]
  · exact hn
  · rintro r rfl rfl
    exact hr rfl rfl

theorem consHead_ne_nil (c : Char) (ts : List (List Char)) : consHead c ts ≠ [] := by
  cases ts <;> exact List.cons_ne_nil _ _

/-- Only the empty text has no lines. -/
theorem lines_eq_nil_iff {s : List Char} : lines s = [] ↔ s = [] := by
  fun_cases lines s <;> simp [consHead_ne_nil]

theorem lines_append {line : List Char} (h : IsLine line) (rest : List Char) :
    lines (line ++ '\n' :: rest) = line :: lines rest := by
  induction line with
  | nil => exact lines_newline rest
  | cons c s ih =>
    obtain ⟨hn, hlast⟩ := h
    rw [List.mem_cons, not_or] at hn
    have hhead : c = '\r' → (s ++ '\n' :: rest).head? ≠ some '\n' := by
      rintro rfl
      cases s with
      | nil => exact absurd rfl hlast
      | cons d s =>
        intro he
        obtain rfl := Option.some.inj he
        exact hn.2 (List.mem_cons_self ..)
    have hs : IsLine s := by
      refine ⟨hn.2, fun he => hlast ?_⟩
      rw [List.getLast?_cons, he]
      rfl
    rw [List.cons_append, lines_cons (Ne.symm hn.1) hhead, ih hs, consHead_cons]

theorem lines_append_both {line : List Char} (h : '\n' ∉ line) (rest : List Char) :
    lines (line ++ '\r' :: '\n' :: rest) = line :: lines rest := by
  induction line with
  | nil => rw [List.nil_append, lines]
  | cons c s ih =>
    rw [List.mem_cons, not_or] at h
    have hhead : c = '\r' → (s ++ '\r' :: '\n' :: rest).head? ≠ some '\n' := by
      rintro -
      cases s with
      | nil => simp
      | cons d s =>
        intro he
        obtain rfl := Option.some.inj he
        exact h.2 (List.mem_cons_self ..)
    rw [List.cons_append, lines_cons (Ne.symm h.1) hhead, ih h.2, consHead_cons]

theorem lines_of_notMem {line : List Char} (hne : line ≠ []) (h : '\n' ∉ line) :
    lines line = [line] := by
  induction line with
  | nil => exact absurd rfl hne
  | cons c s ih =>
    rw [List.mem_cons, not_or] at h
    have hhead : c = '\r' → s.head? ≠ some '\n' := fun _ he => h.2 (List.mem_of_head? he)
    rw [lines_cons (Ne.symm h.1) hhead]
    cases s with
    | nil => rfl
    | cons d s => rw [ih (List.cons_ne_nil _ _) h.2, consHead_cons]

/-- **Lines ended by line feeds are the lines of the whole text.** -/
theorem lines_flatMap {ls : List (List Char)} (h : ∀ l ∈ ls, IsLine l) :
    lines (ls.flatMap (· ++ ['\n'])) = ls := by
  induction ls with
  | nil => rfl
  | cons l ls ih =>
    have htext : (l :: ls).flatMap (· ++ ['\n']) = l ++ '\n' :: ls.flatMap (· ++ ['\n']) := by
      simp
    rw [htext, lines_append (h l (List.mem_cons_self ..)),
      ih fun l' hl' => h l' (List.mem_cons_of_mem _ hl')]

/-- The lines a text is made of. Each line is ended by a line feed, perhaps behind a carriage
return, and the last one may lack its end. -/
inductive LinesOf : List Char → List (List Char) → Prop
  | nil : LinesOf [] []
  | last {line : List Char} (hne : line ≠ []) (h : '\n' ∉ line) : LinesOf line [line]
  | lineFeed {line s : List Char} {ls : List (List Char)} (h : IsLine line) (hs : LinesOf s ls) :
      LinesOf (line ++ '\n' :: s) (line :: ls)
  | both {line s : List Char} {ls : List (List Char)} (h : '\n' ∉ line) (hs : LinesOf s ls) :
      LinesOf (line ++ '\r' :: '\n' :: s) (line :: ls)

/-- One more character in front, which belongs to no end of a line. -/
theorem LinesOf.consHead {c : Char} {s : List Char} {ls : List (List Char)} (h : LinesOf s ls)
    (hn : c ≠ '\n') (hr : c = '\r' → s.head? ≠ some '\n') :
    LinesOf (c :: s) (Text.consHead c ls) := by
  have hcons {line : List Char} (hline : '\n' ∉ line) : '\n' ∉ c :: line :=
    List.not_mem_cons_of_ne_of_not_mem (Ne.symm hn) hline
  cases h with
  | nil => exact .last (List.cons_ne_nil _ _) (hcons List.not_mem_nil)
  | last _ h => exact .last (List.cons_ne_nil _ _) (hcons h)
  | both h hs => exact .both (hcons h) hs
  | @lineFeed line s ls h hs =>
    refine .lineFeed ⟨hcons h.1, ?_⟩ hs
    cases line with
    | nil =>
      intro he
      exact hr (Option.some.inj he) rfl
    | cons d line => exact h.2

/-- **The lines of a text** are those it is made of. -/
theorem linesOf_iff {s : List Char} {ls : List (List Char)} : LinesOf s ls ↔ lines s = ls := by
  constructor
  · intro h
    induction h with
    | nil => rfl
    | last hne h => exact lines_of_notMem hne h
    | lineFeed h _ ih => rw [lines_append h, ih]
    | both h _ ih => rw [lines_append_both h, ih]
  · rintro rfl
    fun_induction lines s with
    | case1 => exact .nil
    | case2 s ih => exact @LinesOf.lineFeed [] _ _ ⟨List.not_mem_nil, nofun⟩ ih
    | case3 s ih => exact @LinesOf.both [] _ _ List.not_mem_nil ih
    | case4 c s hn hr ih =>
      refine ih.consHead hn fun hc hs => ?_
      obtain ⟨t, rfl⟩ := List.head?_eq_some_iff.mp hs
      exact hr t hc rfl

theorem LinesOf.lineFeed_notMem {s : List Char} {ls : List (List Char)} (h : LinesOf s ls) :
    ∀ line ∈ ls, '\n' ∉ line := by
  induction h with
  | nil => exact nofun
  | last _ h => exact List.forall_mem_singleton.mpr h
  | lineFeed h _ ih => exact List.forall_mem_cons.mpr ⟨h.1, ih⟩
  | both h _ ih => exact List.forall_mem_cons.mpr ⟨h, ih⟩

end TypedClient.Text
