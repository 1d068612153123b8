import Mathlib.Data.List.DropRight

/-!
# Lines of a text

Reading a text line by line, and cutting a line between the first and the last character
that is not blank. The loop over the lines sees the pieces between the line feeds, and the
two positions give the line without the blanks at its ends.
-/

namespace TextLines

set_option autoImplicit false

universe u
variable {α : Type u}

/-- `std::getline`: the characters up to the next line feed, which is taken and dropped, or up to
the end of the text; it fails when nothing is left. -/
def getline [DecidableEq α] (newline : α) : List α → Option (List α × List α)
  | [] => none
  | text => some (text.takeWhile (· ≠ newline), (text.dropWhile (· ≠ newline)).tail)

def findFirstNotOf (blank : α → Bool) (line : List α) : Option Nat := line.findIdx? fun c => !blank c

def findLastNotOf (blank : α → Bool) (line : List α) : Option Nat :=
  (line.reverse.findIdx? fun c => !blank c).map fun i => line.length - 1 - i

/-- A text without the blanks at its ends. -/
def strip (blank : α → Bool) (line : List α) : List α := (line.dropWhile blank).rdropWhile blank

section Lines
variable [DecidableEq α] {newline : α} {line rest text : List α}

theorem getline_cases (h : getline newline text = some (line, rest)) : newline ∉ line ∧
    (text = line ++ newline :: rest ∨ (text = line ∧ line ≠ [] ∧ rest = [])) := by
  cases text with
  | nil => cases h
  | cons c cs =>
    simp only [getline, Option.some.injEq, Prod.mk.injEq] at h
    obtain ⟨hline, hrest⟩ := h
    have hsplit : line ++ (c :: cs).dropWhile (· ≠ newline) = c :: cs := by
      rw [← hline]
      exact List.takeWhile_append_dropWhile
    constructor
    · intro hmem
      rw [← hline] at hmem
      simpa using List.mem_takeWhile_imp hmem
    · cases hdrop : (c :: cs).dropWhile (· ≠ newline) with
      | nil =>
        rw [hdrop, List.append_nil] at hsplit
        rw [hdrop] at hrest
        exact Or.inr ⟨hsplit.symm, hsplit ▸ List.cons_ne_nil c cs, hrest.symm⟩
      | cons d ds =>
        have hstop : d = newline := by
          have hnot := List.head?_dropWhile_not (· ≠ newline) (c :: cs)
          rw [hdrop] at hnot
          simpa using hnot
        rw [hdrop] at hrest hsplit
        exact Or.inl (by rw [← hsplit, hstop, ← hrest, List.tail_cons])

theorem getline_shrinks (h : getline newline text = some (line, rest)) : rest.length < text.length := by
  rcases (getline_cases h).2 with rfl | ⟨rfl, hne, rfl⟩
  · simp only [List.length_append, List.length_cons]
    omega
  · exact List.length_pos_of_ne_nil hne

theorem splitOn_append_cons (h : newline ∉ line) :
    (line ++ newline :: rest).splitOn newline = line :: rest.splitOn newline := by
  rw [List.splitOn_eq_splitOnP, List.splitOn_eq_splitOnP]
  apply List.splitOnP_append_cons_of_forall_mem
  · intro c hc
    simp only [beq_eq_false_iff_ne]
    exact fun heq => h (heq ▸ hc)
  · exact beq_self_eq_true newline

theorem splitOn_of_not_mem (h : newline ∉ line) : line.splitOn newline = [line] := by
  apply List.splitOn_eq_singleton_of_beq_eq_false
  intro c hc
  simp only [beq_eq_false_iff_ne]
  exact fun heq => h (heq ▸ hc)

/-- The pieces of a text are its first line and the pieces of the rest; an empty piece may be
left at the end. -/
theorem mem_splitOn_of_getline (h : getline newline text = some (line, rest)) {piece : List α}
    (hpiece : piece ≠ []) :
    piece ∈ text.splitOn newline ↔ piece = line ∨ piece ∈ rest.splitOn newline := by
  obtain ⟨hline, htext⟩ := getline_cases h
  rcases htext with rfl | ⟨rfl, _, rfl⟩
  · rw [splitOn_append_cons hline, List.mem_cons]
  · simp [splitOn_of_not_mem hline, hpiece]

end Lines

section Strip
variable {blank : α → Bool} {line front core back : List α}

/-- A text that neither begins nor ends with a blank. -/
def Tight (blank : α → Bool) (core : List α) : Prop :=
  (∀ c ∈ core.head?, blank c = false) ∧ ∀ c ∈ core.getLast?, blank c = false

theorem exists_strip (blank : α → Bool) (line : List α) : ∃ front back,
    line = front ++ (strip blank line ++ back) ∧ (∀ c ∈ front, blank c = true) ∧
    ∀ c ∈ back, blank c = true := by
  refine ⟨line.takeWhile blank, (line.dropWhile blank).rtakeWhile blank, ?_, fun c hc => ?_,
    fun c hc => ?_⟩
  · rw [strip, List.rdropWhile_append_rtakeWhile, List.takeWhile_append_dropWhile]
  · exact List.mem_takeWhile_imp hc
  · exact List.mem_rtakeWhile_imp hc

theorem dropWhile_of_head {core : List α} (h : ∀ c ∈ core.head?, blank c = false) :
    core.dropWhile blank = core := by
  cases core with
  | nil => rfl
  | cons c cs => rw [List.dropWhile_cons, h c rfl, if_neg Bool.false_ne_true]

theorem strip_eq (tight : Tight blank core) (hfront : ∀ c ∈ front, blank c = true)
    (hback : ∀ c ∈ back, blank c = true) : strip blank (front ++ (core ++ back)) = core := by
  have hright : (core ++ back).rdropWhile blank = core := by
    rw [List.rdropWhile, List.reverse_append,
      List.dropWhile_append_of_pos (fun c hc => hback c (List.mem_reverse.mp hc)),
      dropWhile_of_head (fun c hc => tight.2 c (by rwa [List.head?_reverse] at hc)),
        List.reverse_reverse]
  rw [strip, List.dropWhile_append_of_pos hfront]
  cases core with
  | nil => rw [List.nil_append, List.dropWhile_eq_nil_iff.mpr hback, List.rdropWhile_nil]
  | cons c cs => rw [dropWhile_of_head fun d hd => tight.1 d (by simpa using hd), hright]

theorem tight_strip (blank : α → Bool) (line : List α) : Tight blank (strip blank line) := by
  constructor
  · intro c hc
    obtain ⟨back, hback⟩ := List.rdropWhile_prefix blank (line.dropWhile blank)
    have hhead : (line.dropWhile blank).head? = some c := by
      rw [← hback, List.head?_append]
      exact congrArg (Option.or · _) hc
    have hnot := List.head?_dropWhile_not blank line
    rw [hhead] at hnot
    exact hnot
  · intro c hc
    have hne : strip blank line ≠ [] := by
      intro heq
      rw [heq] at hc
      cases hc
    rw [List.getLast?_eq_getLast_of_ne_nil hne, Option.mem_some_iff] at hc
    rw [← hc]
    exact Bool.eq_false_iff.mpr (List.rdropWhile_last_not blank _ hne)

theorem strip_append_blank {c : α} (h : blank c = true) :
    strip blank (line ++ [c]) = strip blank line := by
  obtain ⟨front, back, hline, hfront, hback⟩ := exists_strip blank line
  have hback' : ∀ d ∈ back ++ [c], blank d = true := by
    intro d hd
    rcases List.mem_append.mp hd with hd | hd
    · exact hback d hd
    · exact List.mem_singleton.mp hd ▸ h
  have hcut := strip_eq (tight_strip blank line) hfront hback'
  rwa [← List.append_assoc, ← List.append_assoc, List.append_assoc front, ← hline] at hcut

theorem strip_congr {blank' : α → Bool} (h : ∀ c ∈ line, blank c = blank' c) :
    strip blank line = strip blank' line := by
  obtain ⟨front, back, hline, hfront, hback⟩ := exists_strip blank line
  obtain ⟨hhead, hlast⟩ := tight_strip blank line
  have hmem : ∀ c, c ∈ front ∨ c ∈ strip blank line ∨ c ∈ back → blank' c = blank c := by
    intro c hc
    refine (h c ?_).symm
    rw [hline]
    simpa using hc
  have htight : Tight blank' (strip blank line) := by
    constructor
    · intro c hc
      rw [hmem c (Or.inr (Or.inl (List.mem_of_mem_head? hc)))]
      exact hhead c hc
    · intro c hc
      rw [hmem c (Or.inr (Or.inl (List.mem_of_mem_getLast? hc)))]
      exact hlast c hc
  have hcut := strip_eq htight (fun c hc => (hmem c (Or.inl hc)).trans (hfront c hc))
    fun c hc => (hmem c (Or.inr (Or.inr hc))).trans (hback c hc)
  rw [← hline] at hcut
  exact hcut.symm

theorem strip_eq_nil_iff : strip blank line = [] ↔ findFirstNotOf blank line = none := by
  have hall : findFirstNotOf blank line = none ↔ ∀ c ∈ line, blank c = true := by
    simp [findFirstNotOf, List.findIdx?_eq_none_iff]
  rw [hall]
  constructor
  · intro hnil c hc
    obtain ⟨front, back, hline, hfront, hback⟩ := exists_strip blank line
    rw [hline, hnil, List.nil_append] at hc
    exact (List.mem_append.mp hc).elim (hfront c) (hback c)
  · intro h
    rw [strip, List.dropWhile_eq_nil_iff.mpr h, List.rdropWhile_nil]

theorem findFirstNotOf_append (hfront : ∀ c ∈ front, blank c = true) {c : α} (stop : blank c = false) :
    findFirstNotOf blank (front ++ c :: back) = some front.length := by
  induction front with
  | nil => simp [findFirstNotOf, List.findIdx?_cons, stop]
  | cons d ds ih =>
    have hrest := ih fun e he => hfront e (List.mem_cons_of_mem d he)
    unfold findFirstNotOf at hrest ⊢
    rw [List.cons_append, List.findIdx?_cons, hfront d List.mem_cons_self, hrest]
    rfl

/-- The positions of the first and the last character that is not blank are those of the ends of
the stripped line. -/
theorem positions (hne : strip blank line ≠ []) : ∃ first last, findFirstNotOf blank line = some first ∧
    findLastNotOf blank line = some last ∧ (line.take (last + 1)).drop first = strip blank line := by
  obtain ⟨front, back, hline, hfront, hback⟩ := exists_strip blank line
  obtain ⟨hhead, hlast⟩ := tight_strip blank line
  generalize strip blank line = core at hline hhead hlast hne ⊢
  obtain ⟨c, cs, hcons⟩ := List.exists_cons_of_ne_nil hne
  obtain ⟨ds, d, hconcat⟩ : ∃ ds d, core = ds ++ [d] := ⟨_, _, (List.dropLast_append_getLast hne).symm⟩
  refine ⟨front.length, front.length + ds.length, ?_, ?_, ?_⟩
  · rw [hline, hcons, List.cons_append]
    exact findFirstNotOf_append hfront (hhead c (by rw [hcons]; rfl))
  · have hreverse : line.reverse = back.reverse ++ d :: (ds.reverse ++ front.reverse) := by
      rw [hline, hconcat]
      simp
    have hfound : findFirstNotOf blank line.reverse = some back.reverse.length := by
      rw [hreverse]
      apply findFirstNotOf_append
      · exact fun e he => hback e (List.mem_reverse.mp he)
      · exact hlast d (by rw [hconcat, List.getLast?_concat]; rfl)
    unfold findFirstNotOf at hfound
    rw [findLastNotOf, hfound, hline, hconcat]
    simp only [Option.map_some, List.length_append, List.length_reverse, List.length_singleton]
    congr 1
    omega
  · have hlength : front.length + ds.length + 1 = (front ++ core).length := by
      rw [hconcat]
      simp only [List.length_append, List.length_singleton]
      omega
    rw [hlength, hline, ← List.append_assoc, List.take_left, List.drop_left]

end Strip

end TextLines
