import PulseSequencer.Json.Library
import PulseSequencer.Proofs.Json.RoundTrip

/-!
What is asked of a JSON library.

`Lawful` is the grammar of JSON, as far as it takes to read what is written: values are written in
brackets, with commas and colons and without blanks, and documents put together in this way are read
piece by piece.  It says nothing about numbers.  `KeepsNumbers` says which of them are read back.
-/

namespace PulseSequencer
namespace Json
namespace Library

/-- A value is read back from what it is written as. -/
def Keeps (lib : Library) (v : Json) : Prop := lib.read? (lib.write v) = some v

/-- How many levels of lists and objects a document may have. -/
def maxLevels : Nat := 127

/-- A library follows the grammar of JSON. -/
structure Lawful (lib : Library) : Prop where
  keeps_null : lib.Keeps .null
  keeps_bool : ∀ b, lib.Keeps (.bool b)
  keeps_text : ∀ s, lib.Keeps (.text s)
  write_list : ∀ items, lib.write (.list items) =
    "[" ++ ",".intercalate (items.map lib.write) ++ "]"
  write_object : ∀ fields, lib.write (.object fields) = "\x7b" ++
    ",".intercalate (fields.map fun f => lib.write (.text f.1) ++ ":" ++ lib.write f.2) ++ "\x7d"
  /-- documents in brackets are read as the list of their values -/
  read_list : ∀ {ι : Type} {l : List ι} {text : ι → String} {item : ι → Json},
    (∀ i ∈ l, lib.read? (text i) = some (item i)) →
    (Json.list (l.map item)).readable maxLevels = true →
    lib.read? ("[" ++ ",".intercalate (l.map text) ++ "]") = some (.list (l.map item))
  /-- documents in braces, each under a key, are read as an object -/
  read_object : ∀ {ι : Type} {l : List ι} {key text : ι → String} {item : ι → Json},
    (∀ i ∈ l, lib.read? (text i) = some (item i)) →
    (Json.object (l.map fun i => (key i, item i))).readable maxLevels = true →
    lib.read? ("\x7b" ++
      ",".intercalate (l.map fun i => lib.write (.text (key i)) ++ ":" ++ text i) ++ "\x7d") =
      some (.object (l.map fun i => (key i, item i)))

/-- The numbers that a library writes and reads back: naturals of 64 bits, and finite doubles as far
as `kept` goes. -/
structure KeepsNumbers (lib : Library) (kept : Binary64 → Prop) : Prop where
  natural : ∀ n : Nat, n < 2 ^ 64 → lib.Keeps (.integer n)
  double : ∀ x : Binary64, x.isFinite = true → kept x → lib.Keeps (.number x)

namespace Lawful

variable {lib : Library} (h : lib.Lawful)
include h

theorem keeps_list {items : List Json} (hitems : ∀ v ∈ items, lib.Keeps v)
    (hlevels : (Json.list items).readable maxLevels = true) : lib.Keeps (.list items) := by
  have hread : lib.read? _ = some (.list (items.map id)) :=
    h.read_list hitems (by rwa [List.map_id])
  rwa [← h.write_list, List.map_id] at hread

theorem keeps_object {fields : List (String × Json)} (hfields : ∀ f ∈ fields, lib.Keeps f.2)
    (hlevels : (Json.object fields).readable maxLevels = true) : lib.Keeps (.object fields) := by
  have hmap : fields.map (fun f => (f.1, f.2)) = fields := List.map_id fields
  have hread : lib.read? _ = some (.object (fields.map fun f => (f.1, f.2))) :=
    h.read_object hfields (by rwa [hmap])
  rwa [← h.write_object, hmap] at hread

end Lawful

/-! ## The standard library -/

theorem compactItems_eq_map (items : List Json) : compactItems items = items.map compact := by
  induction items with
  | nil => rfl
  | cons v items ih => rw [compactItems, ih, List.map_cons]

theorem compactFields_eq_map (fields : List (String × Json)) :
    compactFields fields = fields.map fun f => quote f.1 ++ ":" ++ f.2.compact := by
  induction fields with
  | nil => rfl
  | cons f fields ih => rw [compactFields, ih, List.map_cons]

theorem standard_lawful : standard.Lawful where
  keeps_null := parse?_of_word (s := "null") (Token.isWord_of_any (by decide) (by decide) rfl)
  keeps_bool b := by
    cases b with
    | false =>
      exact parse?_of_word (s := "false") (Token.isWord_of_any (by decide) (by decide) rfl)
    | true => exact parse?_of_word (s := "true") (Token.isWord_of_any (by decide) (by decide) rfl)
  keeps_text s := by
    show (Token.scan (quote s).toList).bind ofTokens? = _
    rw [Token.scan_quote]
    rfl
  write_list items := by
    show compact _ = _
    rw [compact, compactItems_eq_map]
    rfl
  write_object fields := by
    show compact _ = _
    rw [compact, compactFields_eq_map]
    rfl
  read_list hitems _ := parse?_list hitems
  read_object hitems _ := parse?_object hitems

/-- **The standard library reads back** all naturals of 64 bits and all doubles with a short written
form. -/
theorem standard_keepsNumbers : standard.KeepsNumbers ShortForm where
  natural _ hn := parse?_of_word (Token.isWord_integer (by omega) (by omega))
  double x hfinite hshort := by
    have hwrite : compact (.number x) = Layout.json.write x := by simp [compact, scalar, hfinite]
    show parse? (compact (.number x)) = _
    rw [hwrite]
    exact parse?_of_word (Token.isWord_number hshort)

end Library
end Json
end PulseSequencer
