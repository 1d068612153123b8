import Mathlib.Data.List.Basic
import Mathlib.Data.List.Count

/-!
# The text of SQL statements

Words, symbols and the string literals of MySQL's default mode: a literal runs from a
single quote to the next one that is neither doubled nor escaped by a backslash. A text
written between two quotes is read back as itself exactly when it is `plain`.
-/

namespace SqlText

set_option autoImplicit false

inductive Token where
  | word (text : List Char)
  | literal (text : List Char)
  | symbol (c : Char)
  deriving Repr, DecidableEq

def isWordChar (c : Char) : Bool :=
  c.isAlphanum || c == '_' || c == '$' || decide ('\u0080' ≤ c ∧ c ≤ '\uFFFF')

/-- What an escaped character stands for. -/
def escapeValue (c : Char) : Char :=
  if c = '0' then '\x00'
  else if c = 'b' then '\x08'
  else if c = 'n' then '\n'
  else if c = 'r' then '\r'
  else if c = 't' then '\t'
  else if c = 'Z' then '\x1A'
  else c

/-- A backslash and the character after it; before `%` and `_` the backslash stays. -/
def unescape (c : Char) : List Char := if c = '%' ∨ c = '_' then ['\\', c] else [escapeValue c]

inductive State where
  | between
  | word (text : List Char)
  | literal (text : List Char)
  /-- after a quote in a literal: its end, or half of a doubled quote -/
  | quote (text : List Char)
  | escape (text : List Char)
  deriving Repr, DecidableEq

namespace State

def begin (c : Char) : List Token × State :=
  if c.isWhitespace then ([], between)
  else if c = '\'' then ([], literal [])
  else if isWordChar c then ([], word [c])
  else ([.symbol c], between)

def next : State → Char → List Token × State
  | between, c => begin c
  | word text, c =>
    if isWordChar c then ([], word (text ++ [c])) else (.word text :: (begin c).1, (begin c).2)
  | literal text, c =>
    if c = '\'' then ([], quote text)
    else if c = '\\' then ([], escape text)
    else ([], literal (text ++ [c]))
  | quote text, c =>
    if c = '\'' then ([], literal (text ++ ['\''])) else (.literal text :: (begin c).1, (begin c).2)
  | escape text, c => ([], literal (text ++ unescape c))

def finish : State → Option (List Token)
  | between => some []
  | word text => some [.word text]
  | literal _ => none
  | quote text => some [.literal text]
  | escape _ => none

end State

def lexFrom : State → List Char → Option (List Token)
  | q, [] => q.finish
  | q, c :: cs => (lexFrom (q.next c).2 cs).map ((q.next c).1 ++ ·)

def lex (text : List Char) : Option (List Token) := lexFrom .between text

/-- The rest of a text without quotes whose backslashes stand before `%` or `_`. -/
def plainFrom : Bool → List Char → Bool
  | afterBackslash, [] => !afterBackslash
  | true, c :: cs => (c = '%' || c = '_') && plainFrom false cs
  | false, c :: cs => if c = '\\' then plainFrom true cs else c ≠ '\'' && plainFrom false cs

def plain (text : List Char) : Bool := plainFrom false text

def isSpecial (c : Char) : Bool := c = '\'' || c = '\\'

/-- The raw characters between the quotes of a literal, and the text they denote. -/
inductive Denotes : List Char → List Char → Prop where
  | nil : Denotes [] []
  | char {c : Char} {raw text : List Char} (ordinary : isSpecial c = false) (rest : Denotes raw text) :
      Denotes (c :: raw) (c :: text)
  | doubled {raw text : List Char} (rest : Denotes raw text) :
    Denotes ('\'' :: '\'' :: raw) ('\'' :: text)
  | escaped {raw text : List Char} (c : Char) (rest : Denotes raw text) :
      Denotes ('\\' :: c :: raw) (unescape c ++ text)

section Literals
variable {raw text rest : List Char}

theorem isSpecial_eq_false {c : Char} : isSpecial c = false ↔ c ≠ '\'' ∧ c ≠ '\\' := by
  simp [isSpecial]

theorem lexFrom_cons (q : State) (c : Char) (cs : List Char) :
    lexFrom q (c :: cs) = (lexFrom (q.next c).2 cs).map ((q.next c).1 ++ ·) := rfl

theorem lexFrom_silent {q : State} (q' : State) {c : Char} (h : q.next c = ([], q')) (cs : List Char) :
    lexFrom q (c :: cs) = lexFrom q' cs := by
  rw [lexFrom_cons, h]
  simp

theorem lexFrom_denotes (h : Denotes raw text) (before rest : List Char) :
    lexFrom (.literal before) (raw ++ '\'' :: rest) = lexFrom (.quote (before ++ text)) rest := by
  induction h generalizing before with
  | nil =>
    rw [List.nil_append, List.append_nil]
    exact lexFrom_silent _ (by simp [State.next]) rest
  | @char c _ _ ordinary _ ih =>
    obtain ⟨hquote, hbackslash⟩ := isSpecial_eq_false.mp ordinary
    rw [List.cons_append, lexFrom_silent (.literal (before ++ [c]))
      (by simp only [State.next, if_neg hquote, if_neg hbackslash]), ih, List.append_assoc]
    rfl
  | doubled _ ih =>
    rw [List.cons_append, List.cons_append, lexFrom_silent (.quote before) (by simp [State.next]),
      lexFrom_silent (.literal (before ++ ['\''])) (by simp [State.next]), ih, List.append_assoc]
    rfl
  | escaped c _ ih =>
    rw [List.cons_append, List.cons_append, lexFrom_silent (.escape before) (by simp [State.next]),
      lexFrom_silent (.literal (before ++ unescape c)) rfl, ih, List.append_assoc]

/-- The quote that closes a literal is followed by something else. -/
theorem lexFrom_quote {c : Char} (h : c ≠ '\'') (text cs : List Char) :
    lexFrom (.quote text) (c :: cs) = (lex (c :: cs)).map (Token.literal text :: ·) := by
  rw [lex, lexFrom_cons, lexFrom_cons]
  simp only [State.next, if_neg h, Option.map_map]
  rfl

/-- What the lexer takes for the literal it is in. -/
theorem literal_of_lexFrom {before input : List Char} {ts : List Token}
    (h : lexFrom (.literal before) input = some ts) :
    ∃ raw text rest us, input = raw ++ '\'' :: rest ∧ Denotes raw text ∧ rest.head? ≠ some '\'' ∧
      ts = .literal (before ++ text) :: us ∧ lex rest = some us := by
  induction hn : input.length using Nat.strongRecOn generalizing before input with
  | ind n ih =>
    have again : ∀ {before' input' : List Char}, input'.length < n →
        lexFrom (.literal before') input' = some ts →
        ∃ raw text rest us, input' = raw ++ '\'' :: rest ∧ Denotes raw text ∧ rest.head? ≠ some '\'' ∧
          ts = .literal (before' ++ text) :: us ∧ lex rest = some us :=
      fun hlt hrun => ih _ hlt hrun rfl
    cases input with
    | nil => cases h
    | cons c cs =>
      rw [List.length_cons] at hn
      by_cases hquote : c = '\''
      · subst hquote
        rw [lexFrom_silent (.quote before) (by simp [State.next])] at h
        cases cs with
        | nil =>
          obtain rfl := Option.some.inj h
          exact ⟨[], [], [], [], rfl, .nil, by simp, by simp, rfl⟩
        | cons d ds =>
          by_cases hdoubled : d = '\''
          · subst hdoubled
            rw [lexFrom_silent (.literal (before ++ ['\''])) (by simp [State.next])] at h
            rw [List.length_cons] at hn
            obtain ⟨raw, text, rest, us, rfl, hraw, hhead, rfl, hus⟩ := again (by omega) h
            exact ⟨_, _, rest, us, rfl, .doubled hraw, hhead, by simp, hus⟩
          · rw [lexFrom_quote hdoubled] at h
            obtain ⟨us, hus, rfl⟩ := Option.map_eq_some_iff.mp h
            exact ⟨[], [], d :: ds, us, rfl, .nil, by simpa using hdoubled, by simp, hus⟩
      · by_cases hbackslash : c = '\\'
        · subst hbackslash
          rw [lexFrom_silent (.escape before) (by simp [State.next])] at h
          cases cs with
          | nil => cases h
          | cons d ds =>
            rw [lexFrom_silent (.literal (before ++ unescape d)) rfl] at h
            rw [List.length_cons] at hn
            obtain ⟨raw, text, rest, us, rfl, hraw, hhead, rfl, hus⟩ := again (by omega) h
            exact ⟨_, _, rest, us, rfl, .escaped d hraw, hhead, by simp, hus⟩
        · rw [lexFrom_silent (.literal (before ++ [c]))
            (by simp only [State.next, if_neg hquote, if_neg hbackslash])] at h
          obtain ⟨raw, text, rest, us, rfl, hraw, hhead, rfl, hus⟩ := again (by omega) h
          exact ⟨_, _, rest, us, rfl, .char (isSpecial_eq_false.mpr ⟨hquote, hbackslash⟩) hraw, hhead,
            by simp, hus⟩

theorem denotes_of_plainFrom (text : List Char) :
    (plainFrom false text = true → Denotes text text) ∧
    (plainFrom true text = true → Denotes ('\\' :: text) ('\\' :: text)) := by
  induction text with
  | nil => exact ⟨fun _ => .nil, nofun⟩
  | cons c cs ih =>
    constructor
    · intro h
      simp only [plainFrom] at h
      split at h
      · rename_i hbackslash
        exact hbackslash ▸ ih.2 h
      · rename_i hbackslash
        simp only [ne_eq, Bool.and_eq_true, decide_eq_true_eq] at h
        exact .char (isSpecial_eq_false.mpr ⟨h.1, hbackslash⟩) (ih.1 h.2)
    · intro h
      simp only [plainFrom, Bool.and_eq_true, Bool.or_eq_true, decide_eq_true_eq] at h
      have hkept := Denotes.escaped c (ih.1 h.2)
      rwa [unescape, if_pos h.1] at hkept

theorem isSpecial_escapeValue (c : Char) : isSpecial (escapeValue c) = isSpecial c := by
  unfold escapeValue
  split_ifs <;> subst_vars <;> rfl

/-- Every character that the raw text has more is a quote or a backslash that the text has less;
without any, the text is plain. -/
theorem Denotes.surplus (h : Denotes raw text) :
    ∃ n, raw.length = text.length + n ∧ raw.countP isSpecial = text.countP isSpecial + n ∧
      (n = 0 → raw = text ∧ plain text = true) := by
  induction h with
  | nil => exact ⟨0, rfl, rfl, fun _ => ⟨rfl, rfl⟩⟩
  | @char c _ _ ordinary _ ih =>
    obtain ⟨n, hlength, hcount, hsame⟩ := ih
    obtain ⟨hquote, hbackslash⟩ := isSpecial_eq_false.mp ordinary
    refine ⟨n, by simp only [List.length_cons]; omega, by simp [ordinary, hcount], fun hn => ?_⟩
    obtain ⟨rfl, hplain⟩ := hsame hn
    refine ⟨rfl, ?_⟩
    simp only [plain, plainFrom, if_neg hbackslash] at hplain ⊢
    simp [hquote, hplain]
  | doubled _ ih =>
    obtain ⟨n, hlength, hcount, _⟩ := ih
    refine ⟨n + 1, by simp only [List.length_cons]; omega, ?_, nofun⟩
    rw [List.countP_cons_of_pos rfl, List.countP_cons_of_pos rfl, List.countP_cons_of_pos rfl]
    omega
  | escaped c _ ih =>
    obtain ⟨n, hlength, hcount, hsame⟩ := ih
    unfold unescape
    split
    · rename_i hkept
      refine ⟨n, ?_, ?_, fun hn => ?_⟩
      · simp only [List.length_cons, List.length_append, List.length_nil]
        omega
      · simp only [List.countP_cons, List.cons_append, List.nil_append]
        omega
      · obtain ⟨rfl, hplain⟩ := hsame hn
        refine ⟨rfl, ?_⟩
        simp only [plain, List.cons_append, List.nil_append, plainFrom, if_pos] at hplain ⊢
        simpa [hkept] using hplain
    · refine ⟨n + 1, ?_, ?_, nofun⟩
      · simp only [List.length_cons, List.length_append, List.length_nil]
        omega
      · rw [List.countP_cons_of_pos rfl]
        simp only [List.countP_cons, List.cons_append, List.nil_append, isSpecial_escapeValue]
        omega

/-- A literal that runs over the closing quote would go on over special characters only. -/
theorem overrun_impossible {c : Char} (ordinary : isSpecial c = false)
    {extra cs rest : List Char} {n : Nat} (length : extra.length = n)
    (count : extra.countP isSpecial = n) (positive : n ≠ 0) :
    '\'' :: c :: cs ≠ extra ++ '\'' :: rest := by
  have hall : ∀ d ∈ extra, isSpecial d = true := List.countP_eq_length.mp (count.trans length.symm)
  intro hextra
  cases extra with
  | nil => exact positive length.symm
  | cons quote extra =>
    have htail : c :: cs = extra ++ '\'' :: rest := (List.cons.inj hextra).2
    have hspecial : isSpecial c = true := by
      cases extra with
      | nil =>
        rw [(List.cons.inj htail).1]
        rfl
      | cons d extra =>
        rw [(List.cons.inj htail).1]
        exact hall d (List.mem_cons_of_mem _ List.mem_cons_self)
    rw [ordinary] at hspecial
    cases hspecial

/-- Between quotes, and before a character that is neither a quote nor a backslash, a text is read
back as it is exactly when it is plain. -/
theorem lex_literal_iff {c : Char} (ordinary : isSpecial c = false) (text cs : List Char)
    (ts : List Token) :
    lex ('\'' :: (text ++ '\'' :: c :: cs)) = some (.literal text :: ts) ↔
      plain text = true ∧ lex (c :: cs) = some ts := by
  have hopen : lex ('\'' :: (text ++ '\'' :: c :: cs)) = lexFrom (.literal [])
      (text ++ '\'' :: c :: cs) :=
    lexFrom_silent _ (by simp [State.next, State.begin]) _
  rw [hopen]
  constructor
  · intro h
    obtain ⟨raw, text', rest, us, hinput, hraw, hhead, hts, hus⟩ := literal_of_lexFrom h
    obtain ⟨htext, rfl⟩ := List.cons.inj hts
    obtain rfl : text = text' := Token.literal.inj htext
    obtain ⟨n, hlength, hcount, hsame⟩ := hraw.surplus
    by_cases hn : n = 0
    · obtain ⟨rfl, hplain⟩ := hsame hn
      obtain rfl : c :: cs = rest := (List.cons.inj (List.append_cancel_left hinput)).2
      exact ⟨hplain, hus⟩
    · rcases List.append_eq_append_iff.mp hinput with ⟨extra, rfl, hextra⟩ | ⟨_, rfl, _⟩
      · exact absurd hextra (overrun_impossible ordinary (by simpa using hlength)
          (by simpa using hcount) hn)
      · simp only [List.length_append] at hlength
        omega
  · rintro ⟨hplain, hrest⟩
    rw [lexFrom_denotes ((denotes_of_plainFrom text).1 hplain),
      lexFrom_quote (isSpecial_eq_false.mp ordinary).1, hrest]
    rfl

end Literals

def isIdentifier (text : List Char) : Bool := !text.isEmpty && text.all isWordChar

def quoted (text : List Char) : List Char := '\'' :: (text ++ ['\''])

def commas (pieces : List (List Char)) : List Char := List.intercalate [',', ' '] pieces

def listed (items : List Token) : List Token := items.intersperse (.symbol ',')

section Lists

theorem begin_word {c : Char} (h : isWordChar c = true) : State.begin c = ([], .word [c]) := by
  have hspace : c.isWhitespace ≠ true := by
    intro hw
    simp only [Char.isWhitespace, Bool.or_eq_true, decide_eq_true_eq, or_assoc] at hw
    rcases hw with rfl | rfl | rfl | rfl <;> revert h <;> decide
  have hquote : c ≠ '\'' := by
    rintro rfl
    revert h
    decide
  rw [State.begin, if_neg hspace, if_neg hquote, if_pos h]

theorem lexFrom_word {text : List Char} (h : ∀ c ∈ text, isWordChar c = true) {c : Char}
    (stop : isWordChar c = false) (before cs : List Char) :
    lexFrom (.word before) (text ++ c :: cs) = (lex (c :: cs)).map
      (Token.word (before ++ text) :: ·) := by
  induction text generalizing before with
  | nil =>
    rw [List.nil_append, List.append_nil, lex, lexFrom_cons, lexFrom_cons]
    simp only [State.next, stop, Bool.false_eq_true, if_false, Option.map_map]
    rfl
  | cons d text ih =>
    have hd : isWordChar d = true := h d List.mem_cons_self
    rw [List.cons_append, lexFrom_silent (.word (before ++ [d])) (by simp only [State.next, if_pos hd]),
      ih fun e he => h e (List.mem_cons_of_mem d he), List.append_assoc]
    rfl

theorem lex_word {text : List Char} (h : isIdentifier text = true) {c : Char}
    (stop : isWordChar c = false) (cs : List Char) :
    lex (text ++ c :: cs) = (lex (c :: cs)).map (Token.word text :: ·) := by
  unfold isIdentifier at h
  rw [Bool.and_eq_true, List.all_eq_true] at h
  cases text with
  | nil => cases h.1
  | cons d text =>
    have hbegin : State.next .between d = ([], .word [d]) := begin_word (h.2 d List.mem_cons_self)
    rw [List.cons_append, lex, lexFrom_silent _ hbegin,
      lexFrom_word (fun e he => h.2 e (List.mem_cons_of_mem d he)) stop]
    rfl

theorem lex_space (cs : List Char) : lex (' ' :: cs) = lex cs :=
  lexFrom_silent _ (by decide) cs

theorem lex_symbol {c : Char} (h : State.begin c = ([.symbol c], .between)) (cs : List Char) :
    lex (c :: cs) = (lex cs).map (Token.symbol c :: ·) := by
  rw [lex, lexFrom_cons]
  simp only [State.next, h]
  rfl

theorem lex_comma_space (cs : List Char) :
    lex (',' :: ' ' :: cs) = (lex cs).map (Token.symbol ',' :: ·) := by
  rw [lex_symbol (by decide), lex_space]

theorem lex_identifiers {names : List (List Char)} (h : ∀ name ∈ names, isIdentifier name = true)
    (cs : List Char) :
    lex (commas names ++ ')' :: cs) = (lex (')' :: cs)).map (listed (names.map .word) ++ ·) := by
  induction names with
  | nil => simp [commas, listed]
  | cons name names ih =>
    have hname : isIdentifier name = true := h name List.mem_cons_self
    cases names with
    | nil =>
      rw [commas, List.intercalate_singleton, lex_word hname (by decide)]
      rfl
    | cons name' names =>
      have hrest := ih fun n hn => h n (List.mem_cons_of_mem name hn)
      rw [commas] at hrest
      rw [commas, List.intercalate_cons_cons]
      simp only [List.append_assoc, List.cons_append, List.nil_append]
      rw [lex_word hname (by decide), lex_comma_space, hrest]
      simp only [Option.map_map]
      rfl

/-- A list of texts between quotes before a closing parenthesis is read as the list of these texts
exactly when all of them are plain. -/
theorem lex_literals_iff (texts : List (List Char)) (cs : List Char) (ts : List Token) :
    lex (commas (texts.map quoted) ++ ')' :: cs) = some (listed (texts.map .literal) ++ ts) ↔
      (∀ text ∈ texts, plain text = true) ∧ lex (')' :: cs) = some ts := by
  induction texts with
  | nil => simp [commas, listed]
  | cons text texts ih =>
    cases texts with
    | nil =>
      simp only [List.map_cons, List.map_nil, commas, List.intercalate_singleton, quoted,
        List.cons_append, List.append_assoc, List.nil_append]
      rw [show listed [Token.literal text] = [.literal text] from rfl, List.singleton_append,
        lex_literal_iff (by decide)]
      simp
    | cons text' texts =>
      simp only [List.map_cons, commas, List.intercalate_cons_cons] at ih ⊢
      rw [show listed (.literal text :: .literal text' :: texts.map .literal) =
        .literal text :: .symbol ',' :: listed (.literal text' :: texts.map .literal) from rfl]
      rw [quoted]
      simp only [List.cons_append, List.append_assoc, List.nil_append]
      rw [lex_literal_iff (by decide), lex_comma_space, Option.map_eq_some_iff]
      simp only [List.cons.injEq, true_and, exists_eq_right]
      rw [ih]
      simp [and_assoc]

end Lists

end SqlText
