import DBMiddleWare.Library.SqlText
import DBMiddleWare.MessageDispatcher

/-!
# The insert statement

The handler puts the text of every value between quotes without escaping it.
-/

namespace DBMiddleWare

open SqlText
set_option autoImplicit false

/-- The text of a value: the string itself, or the dump. -/
def valueText (env : Env) : Json → String
  | .string s => s
  | v => env.dump v

def insertTokens (table : String) (columns values : List String) : List Token :=
  .word "INSERT".toList :: .word "INTO".toList :: .word table.toList :: .symbol '(' ::
    (listed ((columns.map String.toList).map .word) ++
      .symbol ')' :: .word "VALUES".toList :: .symbol '(' ::
        (listed ((values.map String.toList).map .literal) ++ [.symbol ')', .symbol ';']))

section Query

theorem appendAll_cons_cons (oss piece piece' : String) (pieces : List String) :
    appendAll oss (piece :: piece' :: pieces) = appendAll (oss ++ piece ++ ", ")
      (piece' :: pieces) := rfl

theorem appendAll_toList (oss : String) (pieces : List String) :
    (appendAll oss pieces).toList = oss.toList ++ commas (pieces.map String.toList) := by
  induction pieces generalizing oss with
  | nil => simp [appendAll, commas]
  | cons piece pieces ih =>
    cases pieces with
    | nil => simp [appendAll, commas]
    | cons piece' pieces =>
      rw [appendAll_cons_cons, ih]
      simp [commas]

theorem quoted_toList (env : Env) (v : Json) :
    (quoted env v).toList = SqlText.quoted (valueText env v).toList := by
  cases v <;> simp [quoted, valueText, SqlText.quoted]

variable {msg : Json} {table : String} {members : List (String × Json)}

theorem insertQuery_toList (env : Env) (htable : msg.value "table" "" = .ok table)
    (hvalues : msg.valueJson "values" (.object []) = .ok (.object members)) :
    ∃ query, insertQuery env msg = .ok query ∧ query.toList =
      "INSERT".toList ++ ' ' :: ("INTO".toList ++ ' ' :: (table.toList ++ ' ' :: '(' ::
        (commas (members.map fun m => m.1.toList) ++ ')' :: ' ' :: ("VALUES".toList ++ ' ' :: '(' ::
          (commas ((members.map fun m => (valueText env m.2).toList).map SqlText.quoted) ++ [')',
            ';']))))) := by
  refine ⟨_, by simp only [insertQuery, htable, hvalues]; rfl, ?_⟩
  simp only [String.toList_append, appendAll_toList, List.map_map, Json.items]
  rw [show (String.toList ∘ fun item : String × Json => quoted env item.2) =
    SqlText.quoted ∘ fun m => (valueText env m.2).toList from funext fun m => quoted_toList env m.2]
  simp only [List.append_assoc]
  rfl

/-- Up to the list of values the statement is read as it was meant. -/
theorem lex_insertQuery (identifier : isIdentifier table.toList = true)
    (columns : ∀ m ∈ members, isIdentifier m.1.toList = true) (rest : List Char) :
    lex ("INSERT".toList ++ ' ' :: ("INTO".toList ++ ' ' :: (table.toList ++ ' ' :: '(' ::
        (commas (members.map fun m => m.1.toList) ++ ')' :: ' ' ::
          ("VALUES".toList ++ ' ' :: '(' :: rest))))) =
      (lex rest).map fun ts =>
        .word "INSERT".toList :: .word "INTO".toList :: .word table.toList :: .symbol '(' ::
          (listed ((members.map fun m => m.1.toList).map .word) ++
            .symbol ')' :: .word "VALUES".toList :: .symbol '(' :: ts) := by
  have hnames : ∀ name ∈ members.map fun m => m.1.toList, isIdentifier name = true :=
    List.forall_mem_map.mpr columns
  rw [lex_word (by decide) (by decide), lex_space, lex_word (by decide) (by decide), lex_space,
    lex_word identifier (by decide), lex_space, lex_symbol (by decide), lex_identifiers hnames,
    lex_symbol (by decide), lex_space, lex_word (by decide) (by decide), lex_space,
      lex_symbol (by decide)]
  simp only [Option.map_map]
  rfl

end Query

/-- The statement for an insert message over plain identifiers is read as one INSERT of one row with
these columns and values exactly when the text of every value is plain. -/
theorem insert_statement_faithful_iff (env : Env) (msg : Json) (table : String)
    (members : List (String × Json)) (named : msg.value "table" "" = .ok table)
    (identifier : isIdentifier table.toList = true)
    (valued : msg.valueJson "values" (.object []) = .ok (.object members))
    (columns : ∀ m ∈ members, isIdentifier m.1.toList = true) :
    (∃ query, insertQuery env msg = .ok query ∧ lex query.toList =
      some (insertTokens table (members.map Prod.fst) (members.map fun m => valueText env m.2))) ↔
      ∀ m ∈ members, plain (valueText env m.2).toList = true := by
  obtain ⟨query, hquery, htext⟩ := insertQuery_toList env named valued
  have hvalues := lex_literals_iff (members.map fun m => (valueText env m.2).toList) [';']
    [.symbol ')', .symbol ';']
  have hread : lex query.toList =
      some (insertTokens table (members.map Prod.fst) (members.map fun m => valueText env m.2)) ↔
      lex (commas ((members.map fun m => (valueText env m.2).toList).map SqlText.quoted) ++ [')', ';']) =
        some (listed ((members.map fun m => (valueText env m.2).toList).map .literal) ++
          [.symbol ')', .symbol ';']) := by
    rw [htext, lex_insertQuery identifier columns]
    simp [insertTokens, Function.comp_def]
  rw [and_iff_left (show lex [')', ';'] = some [.symbol ')', .symbol ';'] by decide),
    List.forall_mem_map, ← hread] at hvalues
  rw [← hvalues]
  constructor
  · rintro ⟨query', hquery', hlex⟩
    obtain rfl := Except.ok.inj (hquery.symm.trans hquery')
    exact hlex
  · intro hlex
    exact ⟨query, hquery, hlex⟩

/-- A string and a number, printed as `3`. -/
theorem insert_statement_faithful_iff_two_columns :
    ∃ query, insertQuery { Env.ofTable [] [] with dump := fun _ => "3" }
        (.object [("table", .string "users"),
          ("values", .object [("name", .string "kim"), ("age", .numberUnsigned 3)])]) = .ok query ∧
      lex query.toList = some (insertTokens "users" ["name", "age"] ["kim", "3"]) :=
  (insert_statement_faithful_iff { Env.ofTable [] [] with dump := fun _ => "3" } _ "users"
    [("name", .string "kim"), ("age", .numberUnsigned 3)] rfl (by decide) rfl (by decide)).mpr
      (by decide)

/-- A value with a quote in it inserts a second row. -/
theorem quote_in_value_adds_row :
    (∃ query, insertQuery (Env.ofTable [] []) (.object [("table", .string "users"),
        ("values", .object [("name", .string "x'), ('y")])]) = .ok query ∧
      lex query.toList = some [.word "INSERT".toList, .word "INTO".toList, .word "users".toList,
        .symbol '(', .word "name".toList, .symbol ')', .word "VALUES".toList,
        .symbol '(', .literal ['x'], .symbol ')', .symbol ',',
        .symbol '(', .literal ['y'], .symbol ')', .symbol ';']) ∧
    ¬ ∃ query, insertQuery (Env.ofTable [] []) (.object [("table", .string "users"),
        ("values", .object [("name", .string "x'), ('y")])]) = .ok query ∧
      lex query.toList = some (insertTokens "users" ["name"] ["x'), ('y"]) := by
  refine ⟨⟨_, rfl, by decide +kernel⟩, ?_⟩
  rintro ⟨query, hquery, hlex⟩
  obtain rfl := Except.ok.inj hquery
  revert hlex
  decide +kernel

end DBMiddleWare
