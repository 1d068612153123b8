import DBMiddleWare.Library.TextLines
import DBMiddleWare.MessageBufferManager

/-!
# The whitelist

`load` reads the file of the admitted addresses line by line, cuts off the blanks around
each line and leaves out empty lines and comments. The file and the addresses are raw bytes.
-/

namespace DBMiddleWare

open TextLines
set_option autoImplicit false

structure AllowedIPManager where
  allowedIps : List Bytes

namespace AllowedIPManager

def space : UInt8 := 32
def tab : UInt8 := 9
def carriageReturn : UInt8 := 13
def newline : UInt8 := 10
def hash : UInt8 := 35

def ws : Bytes := [space, tab, carriageReturn, newline]

/-- The body of the loop of `load`: what it inserts for a line, if anything. -/
def entry (line : Bytes) : Option Bytes :=
  let line := if line ≠ [] ∧ line.getLast? = some carriageReturn then line.dropLast else line
  match findFirstNotOf (ws.contains ·) line with
  | none => none
  | some first =>
    -- `npos + 1` is 0
    let size := match findLastNotOf (ws.contains ·) line with
      | some last => last + 1
      | none => 0
    let line := line.take size
    let line := line.drop first
    if line = [] ∨ line.head? = some hash then none else some line

def readLines (allowedIps : List Bytes) (fin : Bytes) : List Bytes :=
  match _h : getline newline fin with
  | none => allowedIps
  | some (line, rest) =>
    match entry line with
    | none => readLines allowedIps rest
    | some ip => readLines (allowedIps.insert ip) rest
termination_by fin.length
decreasing_by all_goals exact getline_shrinks _h

/-- `load` of a file that cannot be opened, or of its content. -/
def load (m : AllowedIPManager) (file : Option Bytes) : AllowedIPManager × Bool :=
  let m := { m with allowedIps := [] }
  match file with
  | none => (m, false)
  | some content => ({ m with allowedIps := readLines m.allowedIps content }, true)

def isAllowed (m : AllowedIPManager) (ip : Bytes) : Bool := 0 < m.allowedIps.count ip

def isBlank (c : UInt8) : Bool := c = space || c = tab || c = carriageReturn

/-- The line admits the address. -/
def Admits (line ip : Bytes) : Prop := strip isBlank line = ip ∧ ip ≠ [] ∧ ip.head? ≠ some hash

theorem strip_dropLast {line : Bytes} (h : line.getLast? = some carriageReturn) :
    strip isBlank line.dropLast = strip isBlank line := by
  obtain ⟨front, rfl⟩ := List.getLast?_eq_some_iff.mp h
  rw [List.dropLast_concat, strip_append_blank rfl]

theorem entry_eq_some_iff {line : Bytes} (h : newline ∉ line) (ip : Bytes) :
    entry line = some ip ↔ Admits line ip := by
  have hcut : ∀ {line : Bytes}, newline ∉ line →
      strip (fun c => ws.contains c) line = strip isBlank line := by
    intro line hline
    apply strip_congr
    intro c hc
    have hne : c ≠ newline := fun heq => hline (heq ▸ hc)
    simp [ws, isBlank, hne, Bool.or_assoc]
  generalize hpopped :
    (if line ≠ [] ∧ line.getLast? = some carriageReturn then line.dropLast else line) = popped
  have hsame : newline ∉ popped ∧ strip isBlank popped = strip isBlank line := by
    rw [← hpopped]
    split
    · rename_i hcr
      exact ⟨fun hmem => h (List.mem_of_mem_dropLast hmem), strip_dropLast hcr.2⟩
    · exact ⟨h, rfl⟩
  unfold entry Admits
  simp only [hpopped]
  rw [← hsame.2, ← hcut hsame.1]
  by_cases hnil : strip (fun c => ws.contains c) popped = []
  · rw [strip_eq_nil_iff.mp hnil, hnil]
    constructor
    · nofun
    · rintro ⟨rfl, hne, _⟩
      exact absurd rfl hne
  · obtain ⟨first, last, hfirst, hlast, hline⟩ := positions hnil
    rw [hfirst, hlast]
    simp only [hline, hnil, false_or]
    split
    · rename_i hcomment
      constructor
      · nofun
      · rintro ⟨rfl, _, hne⟩
        exact absurd hcomment hne
    · rename_i hne
      constructor
      · intro heq
        obtain rfl := Option.some.inj heq
        exact ⟨rfl, hnil, hne⟩
      · rintro ⟨rfl, _, _⟩
        rfl

theorem Admits.ne_nil {line ip : Bytes} (h : Admits line ip) : line ≠ [] := by
  obtain ⟨rfl, hne, _⟩ := h
  intro hnil
  rw [hnil] at hne
  exact hne rfl

theorem admits_of_getline {text line rest ip : Bytes} (h : getline newline text = some (line, rest)) :
    (∃ piece ∈ text.splitOn newline, Admits piece ip) ↔
      Admits line ip ∨ ∃ piece ∈ rest.splitOn newline, Admits piece ip := by
  constructor
  · rintro ⟨piece, hmem, hadmits⟩
    rcases (mem_splitOn_of_getline h hadmits.ne_nil).mp hmem with rfl | hrest
    · exact Or.inl hadmits
    · exact Or.inr ⟨piece, hrest, hadmits⟩
  · rintro (hadmits | ⟨piece, hmem, hadmits⟩)
    · exact ⟨line, (mem_splitOn_of_getline h hadmits.ne_nil).mpr (Or.inl rfl), hadmits⟩
    · exact ⟨piece, (mem_splitOn_of_getline h hadmits.ne_nil).mpr (Or.inr hmem), hadmits⟩

theorem readLines_cons {fin line rest : Bytes} (h : getline newline fin = some (line, rest))
    (allowedIps : List Bytes) : readLines allowedIps fin =
      readLines (match entry line with | none => allowedIps | some ip => allowedIps.insert ip) rest := by
  rw [readLines]
  split
  · simp_all
  · rename_i heq
    obtain ⟨rfl, rfl⟩ : _ ∧ _ := by simpa [h] using heq
    split <;> simp_all

/-- The loop collects the addresses that some line admits. -/
theorem mem_readLines (allowedIps : List Bytes) (fin ip : Bytes) :
    ip ∈ readLines allowedIps fin ↔ ip ∈ allowedIps ∨ ∃ line ∈ fin.splitOn newline, Admits line ip := by
  induction allowedIps, fin using readLines.induct with
  | case1 allowedIps fin h =>
    have hnil : fin = [] := by
      cases fin with
      | nil => rfl
      | cons c cs => cases h
    rw [readLines, h, hnil]
    constructor
    · exact Or.inl
    · rintro (hmem | ⟨line, hmem, hadmits⟩)
      · exact hmem
      · simp only [List.splitOn_nil, List.mem_singleton] at hmem
        exact absurd hmem hadmits.ne_nil
  | case2 allowedIps fin line rest h hentry ih =>
    have hnone : ¬ Admits line ip := by
      rw [← entry_eq_some_iff (getline_cases h).1 ip, hentry]
      nofun
    rw [readLines_cons h, hentry, ih, admits_of_getline h]
    simp only [hnone, false_or]
  | case3 allowedIps fin line rest h found hentry ih =>
    have hfound : Admits line ip ↔ ip = found := by
      rw [← entry_eq_some_iff (getline_cases h).1 ip, hentry, Option.some.injEq]
      exact eq_comm
    rw [readLines_cons h, hentry, ih, admits_of_getline h, List.mem_insert_iff, hfound]
    constructor
    · rintro ((heq | hmem) | hrest)
      · exact Or.inr (Or.inl heq)
      · exact Or.inl hmem
      · exact Or.inr (Or.inr hrest)
    · rintro (hmem | heq | hrest)
      · exact Or.inl (Or.inr hmem)
      · exact Or.inl (Or.inl heq)
      · exact Or.inr hrest

theorem isAllowed_iff (m : AllowedIPManager) (ip : Bytes) :
    m.isAllowed ip = true ↔ ip ∈ m.allowedIps := by
  rw [isAllowed, decide_eq_true_iff, List.count_pos_iff]

theorem isAllowed_load (m : AllowedIPManager) (content ip : Bytes) :
    (m.load (some content)).1.isAllowed ip = true ↔
    ∃ line ∈ content.splitOn newline, Admits line ip := by
  rw [isAllowed_iff]
  exact (mem_readLines [] content ip).trans (by simp)

/-- A file of lines, each ended by a line feed with or without a carriage return before it, and
of a last line that is not ended; the last line may be empty. -/
def fileText (lines : List (Bytes × Bool)) (last : Bytes) : Bytes :=
  lines.flatMap
    (fun (line, crlf) => line ++ (if crlf then [carriageReturn, newline] else [newline])) ++ last

def texts (lines : List (Bytes × Bool)) (last : Bytes) : List Bytes := lines.map Prod.fst ++ [last]

/-- Every line of the first file that is neither blank nor a comment has a line of the same text
in the second one. -/
def Covers (lines lines' : List Bytes) : Prop :=
  ∀ line ∈ lines, strip isBlank line ≠ [] → (strip isBlank line).head? ≠ some hash →
    ∃ line' ∈ lines', strip isBlank line' = strip isBlank line

theorem splitOn_fileText_cons {line : Bytes} (h : newline ∉ line) (crlf : Bool)
    (lines : List (Bytes × Bool))
    (last : Bytes) : (fileText ((line, crlf) :: lines) last).splitOn newline =
      (if crlf then line ++ [carriageReturn] else line) :: (fileText lines last).splitOn newline := by
  rw [← splitOn_append_cons]
  · cases crlf with
    | false => simp [fileText]
    | true => simp [fileText]
  · split
    · simpa [newline, carriageReturn] using h
    · exact h

theorem admits_fileText {lines : List (Bytes × Bool)} {last : Bytes}
    (free : ∀ line ∈ texts lines last, newline ∉ line) (ip : Bytes) :
    (∃ piece ∈ (fileText lines last).splitOn newline, Admits piece ip) ↔
      ∃ line ∈ texts lines last, Admits line ip := by
  induction lines with
  | nil =>
    have hlast : (fileText [] last).splitOn newline = [last] :=
      splitOn_of_not_mem (free last (by simp [texts]))
    rw [hlast]
    rfl
  | cons entry lines ih =>
    obtain ⟨line, crlf⟩ := entry
    have hline : newline ∉ line := free line (by simp [texts])
    have hrest := ih fun l hl => free l (List.mem_cons_of_mem line hl)
    have hending : Admits (if crlf then line ++ [carriageReturn] else line) ip ↔ Admits line ip := by
      unfold Admits
      split
      · rw [strip_append_blank rfl]
      · rfl
    rw [splitOn_fileText_cons hline, List.exists_mem_cons_iff, hending, hrest]
    exact (List.exists_mem_cons_iff (Admits · ip) line (texts lines last)).symm

theorem Covers.admits {lines lines' : List Bytes} (h : Covers lines lines') {ip : Bytes}
    (hadmits : ∃ line ∈ lines, Admits line ip) : ∃ line ∈ lines', Admits line ip := by
  obtain ⟨line, hmem, rfl, hne, hcomment⟩ := hadmits
  obtain ⟨line', hmem', heq⟩ := h line hmem hne hcomment
  exact ⟨line', hmem', heq, hne, hcomment⟩

/-- After loading a file exactly the texts of its lines are admitted that are neither empty nor
comments. What an earlier load has left, comments, blank lines, the endings of the lines, the blanks
around them, their order and their repetition make no difference. -/
theorem load_admits_exactly :
    (∀ (m : AllowedIPManager) (content ip : Bytes), (m.load (some content)).1.isAllowed ip = true ↔
      ∃ line ∈ content.splitOn newline, strip isBlank line = ip ∧ ip ≠ [] ∧ ip.head? ≠ some hash) ∧
    ∀ (m m' : AllowedIPManager) (lines lines' : List (Bytes × Bool)) (last last' : Bytes),
      (∀ line ∈ texts lines last ++ texts lines' last', newline ∉ line) →
      Covers (texts lines last) (texts lines' last') → Covers (texts lines' last') (texts lines last) →
      ∀ ip, (m.load (some (fileText lines last))).1.isAllowed ip =
        (m'.load (some (fileText lines' last'))).1.isAllowed ip := by
  refine ⟨isAllowed_load, fun m m' lines lines' last last' free hcovers hcovers' ip => ?_⟩
  have hadmits : (∃ line ∈ texts lines last, Admits line ip) ↔
      ∃ line ∈ texts lines' last', Admits line ip :=
    ⟨hcovers.admits, hcovers'.admits⟩
  rw [Bool.eq_iff_iff, isAllowed_load, isAllowed_load,
    admits_fileText fun line hline => free line (List.mem_append_left _ hline),
    admits_fileText fun line hline => free line (List.mem_append_right _ hline), hadmits]

/-- One address: in a file with a comment, and between blanks in a file with other line endings
and a blank line. -/
theorem load_admits_exactly_two_files :
    (AllowedIPManager.load ⟨[]⟩ (some (fileText [([hash, 49], false)] [49]))).1.isAllowed [49] =
      (AllowedIPManager.load ⟨[[50]]⟩
        (some (fileText [([space, 49, tab], true), ([], true)] []))).1.isAllowed
        [49] :=
  load_admits_exactly.2 ⟨[]⟩ ⟨[[50]]⟩ [([hash, 49], false)] [([space, 49, tab], true),
    ([], true)] [49] []
    (by decide) (by unfold Covers; decide) (by unfold Covers; decide) [49]

end AllowedIPManager

end DBMiddleWare
