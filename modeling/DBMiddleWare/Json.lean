/-!
# JSON values

The part of `nlohmann::json` that the message handlers use. Text is always valid
UTF-8, because the parser rejects anything else. The parser and the printer are
not in the repository: they are parameters of the model.
-/

namespace DBMiddleWare

set_option autoImplicit false

inductive Json where
  | null
  | boolean (b : Bool)
  | numberInteger (n : Int)
  | numberUnsigned (n : Nat)
  | numberFloat (bits : UInt64)
  | string (s : String)
  | array (xs : List Json)
  | object (members : List (String × Json))

/-- The exceptions of member access, by nlohmann's id: 302 for a member of the wrong
type, 306 for a value that is not an object. -/
inductive JsonError where
  | typeError (id : Nat)
  deriving Repr, DecidableEq

namespace Json

/-- `value(key, default)` where the default is a JSON value. -/
def valueJson (msg : Json) (key : String) (default : Json) : Except JsonError Json :=
  match msg with
  | .object members => .ok ((members.lookup key).getD default)
  | _ => .error (.typeError 306)

/-- `value(key, default)` where the default is a string. -/
def value (msg : Json) (key default : String) : Except JsonError String :=
  match msg with
  | .object members =>
    match members.lookup key with
    | none => .ok default
    | some (.string s) => .ok s
    | some _ => .error (.typeError 302)
  | _ => .error (.typeError 306)

/-- `items()`: an array is numbered, a scalar is visited once under the empty key. -/
def items : Json → List (String × Json)
  | .object members => members
  | .array xs => xs.zipIdx.map fun (x, i) => (toString i, x)
  | .null => []
  | scalar => [("", scalar)]

/-- A non-empty answer under an empty default is the string member itself. -/
theorem value_eq_ok {msg : Json} {key s : String} (hs : s ≠ "") :
    msg.value key "" = .ok s ↔
      ∃ members, msg = .object members ∧ members.lookup key = some (.string s) := by
  constructor
  · intro h
    cases msg with
    | object members =>
      refine ⟨members, rfl, ?_⟩
      simp only [value] at h
      split at h
      · exact absurd (Except.ok.inj h).symm hs
      · rename_i s' hl
        rw [hl, Except.ok.inj h]
      · cases h
    | _ => cases h
  · rintro ⟨members, rfl, hl⟩
    simp only [value, hl]

theorem value_eq_error (msg : Json) (key default : String) :
    (∃ e, msg.value key default = .error e) ↔
      ∀ members, msg = .object members →
        ∃ v, members.lookup key = some v ∧ ∀ s, v ≠ .string s := by
  cases msg with
  | object members =>
    constructor
    · rintro ⟨e, he⟩ _ ⟨rfl⟩
      simp only [value] at he
      split at he
      · cases he
      · cases he
      · rename_i v hv hl
        exact ⟨v, hl, hv⟩
    · intro h
      obtain ⟨v, hl, hv⟩ := h members rfl
      cases v with
      | string s => exact absurd rfl (hv s)
      | _ => exact ⟨.typeError 302, by simp only [value, hl]⟩
  | _ =>
    constructor
    · intro _ members h
      cases h
    · intro _
      exact ⟨.typeError 306, rfl⟩

end Json

end DBMiddleWare
