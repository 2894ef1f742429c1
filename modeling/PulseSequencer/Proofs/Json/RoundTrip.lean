import PulseSequencer.Json.Reader
import PulseSequencer.Proofs.Json.Scan

/-!
Documents inside documents.

Tokens that are read as a value by themselves are read as that value wherever a value is expected
(`reads_of_ofTokens?`): the lists and objects around it are frames below those of the value, and its
own tokens never reach them.  Inside a list the items pile up in the innermost frame, so the
induction over the items carries those already read; likewise for the fields of an object.  With the
scan, documents between brackets are read as the list of their values (`parse?_list`), and under
keys as an object (`parse?_object`).
-/

namespace PulseSequencer
namespace Json

open ReadState

/-! ## Frames -/

/-- A state with more lists and objects open around its own; a document that is complete is put
where it belongs. -/
def ReadState.inside (outer : List Frame) (s : ReadState) : Option ReadState :=
  match s.expected with
  | .done v => complete v outer
  | e => some ⟨s.frames ++ outer, e⟩

section
variable {outer frames : List Frame} {t : Token} {s s' : ReadState}

theorem complete_inside (v : Json) :
    complete v (frames ++ outer) = (complete v frames).bind (inside outer) := by
  cases frames with
  | nil => rfl
  | cons frame frames => cases frame <;> rfl

theorem startValue_inside (h : startValue frames t = some s') :
    startValue (frames ++ outer) t = inside outer s' := by
  cases t with
  | value v => exact (complete_inside v).trans (by rw [show complete v frames = _ from h]; rfl)
  | text s => exact (complete_inside _).trans (by rw [show complete _ frames = _ from h]; rfl)
  | openList | openObject => cases h; rfl
  | closeList | closeObject | comma | colon => cases h

theorem close_inside (h : close t frames = some s') :
    close t (frames ++ outer) = inside outer s' := by
  revert h
  fun_cases close t frames with
  | case1 items frames =>
    intro h
    rw [List.cons_append, close, complete_inside, h, Option.bind_some]
  | case2 fields frames =>
    intro h
    rw [List.cons_append, close, complete_inside, h, Option.bind_some]
  | case3 => intro h; cases h

theorem startField_inside (h : startField t frames = some s') :
    startField t (frames ++ outer) = inside outer s' := by
  revert h
  fun_cases startField t frames with
  | case1 key fields frames => intro h; cases h; rfl
  | case2 => intro h; cases h

theorem continueWith_inside (h : continueWith frames = some s') :
    continueWith (frames ++ outer) = inside outer s' := by
  revert h
  fun_cases continueWith frames with
  | case1 items frames => intro h; cases h; rfl
  | case2 fields frames => intro h; cases h; rfl
  | case3 => intro h; cases h

/-- **A step of a document does not look at what lies around it.** -/
theorem step_inside (h : step s t = some s') :
    step ⟨s.frames ++ outer, s.expected⟩ t = inside outer s' := by
  obtain ⟨frames, expected⟩ := s
  cases expected with
  | value =>
    show startValue (frames ++ outer) t = _
    exact startValue_inside h
  | firstItem =>
    cases t with
    | closeList => exact close_inside h
    | openList | openObject | closeObject | comma | colon | value | text =>
      simp only [step] at h ⊢
      exact startValue_inside h
  | key => exact startField_inside h
  | firstKey =>
    cases t with
    | closeObject => exact close_inside h
    | openList | openObject | closeList | comma | colon | value | text =>
      simp only [step] at h ⊢
      exact startField_inside h
  | colon =>
    cases t with
    | colon => cases h; rfl
    | openList | openObject | closeList | closeObject | comma | value | text => cases h
  | separator =>
    cases t with
    | comma => exact continueWith_inside h
    | openList | openObject | closeList | closeObject | colon | value | text =>
      simp only [step] at h ⊢
      exact close_inside h
  | done v => cases h

end

/-- Tokens that are read as a value, wherever a value is expected. -/
def Reads (ts : List Token) (v : Json) : Prop :=
  ∀ frames rest, (ts ++ rest).foldlM step ⟨frames, .value⟩ =
    (complete v frames).bind fun s => rest.foldlM step s

theorem foldlM_inside {ts : List Token} {s : ReadState} {frames : List Frame} {v : Json}
    (h : ts.foldlM step s = some ⟨frames, .done v⟩) (hs : ∀ w, s.expected ≠ .done w)
    (outer : List Frame) (rest : List Token) :
    (ts ++ rest).foldlM step ⟨s.frames ++ outer, s.expected⟩ =
      (complete v outer).bind fun s => rest.foldlM step s := by
  induction ts generalizing s with
  | nil =>
    obtain rfl := Option.some.inj h
    exact absurd rfl (hs v)
  | cons t ts ih =>
    rw [List.foldlM_cons] at h
    obtain ⟨s', hstep, hrest⟩ := Option.bind_eq_some_iff.1 h
    rw [List.cons_append, List.foldlM_cons, step_inside hstep]
    obtain ⟨frames', expected⟩ := s'
    cases expected with
    | done w =>
      -- nothing is read after a complete document
      cases ts with
      | nil =>
        cases hrest
        rfl
      | cons t' ts => cases hrest
    | value | firstItem | key | firstKey | colon | separator => exact ih hrest nofun

/-- **Tokens that are read by themselves are read wherever a value is expected.** -/
theorem reads_of_ofTokens? {ts : List Token} {v : Json} (h : ofTokens? ts = some v) :
    Reads ts v := by
  intro frames rest
  obtain ⟨⟨frames', expected⟩, hread, hdone⟩ := Option.bind_eq_some_iff.1 h
  cases expected with
  | done w =>
    cases hdone
    exact foldlM_inside hread nofun frames rest
  | value | firstItem | key | firstKey | colon | separator => cases hdone

theorem Reads.ofTokens? {ts : List Token} {v : Json} (h : Reads ts v) :
    ofTokens? ts = some v := by
  have hread := h [] []
  rw [List.append_nil] at hread
  rw [Json.ofTokens?, hread]
  rfl

theorem exists_intercalate_eq {α : Type} (g : α → List Token) (a : α) (l : List α) :
    ∃ ts, [Token.comma].intercalate ((a :: l).map g) = g a ++ ts := by
  cases l with
  | nil => exact ⟨[], by simp⟩
  | cons b l => exact ⟨_, by rw [List.map_cons, List.map_cons, List.intercalate_cons_cons,
      List.append_assoc]⟩

/-! ## Lists -/

section
variable {ι : Type} {tokens : ι → List Token} {item : ι → Json}

/-- The first item of a list is read like every other value: no value starts with a closing
bracket. -/
theorem Reads.foldlM_firstItem {ts : List Token} {v : Json} (h : Reads ts v) (frames : List Frame)
    (rest : List Token) : (ts ++ rest).foldlM step ⟨frames, .firstItem⟩ =
      (ts ++ rest).foldlM step ⟨frames, .value⟩ := by
  have halone := h [] []
  rw [List.append_nil] at halone
  cases ts with
  | nil => cases halone
  | cons t ts =>
    cases t with
    | closeList => cases halone
    | openList | openObject | closeObject | comma | colon | value | text => rfl

theorem foldlM_items {i : ι} {l : List ι} (hi : Reads (tokens i) (item i))
    (h : ∀ j ∈ l, Reads (tokens j) (item j)) (read : List Json) (outer : List Frame)
    (rest : List Token) :
    ([Token.comma].intercalate ((i :: l).map tokens) ++ .closeList :: rest).foldlM step
        ⟨.list read :: outer, .value⟩ =
      (complete (.list (read.reverse ++ (i :: l).map item)) outer).bind
        fun s => rest.foldlM step s := by
  induction l generalizing i read with
  | nil =>
    rw [List.map_singleton, List.intercalate_singleton, hi]
    show ((complete (.list (item i :: read).reverse) outer).bind fun s => rest.foldlM step s) = _
    rw [List.reverse_cons]
    rfl
  | cons j l ih =>
    obtain ⟨hj, hl⟩ := List.forall_mem_cons.1 h
    rw [List.map_cons, List.map_cons, List.intercalate_cons_cons, List.append_assoc,
      List.append_assoc, hi]
    have hrest := ih hj hl (item i :: read)
    rw [List.map_cons, List.reverse_cons, List.append_assoc] at hrest
    exact hrest

theorem reads_list {l : List ι} (h : ∀ i ∈ l, Reads (tokens i) (item i)) :
    Reads (.openList :: [Token.comma].intercalate (l.map tokens) ++ [.closeList])
      (.list (l.map item)) := by
  intro frames rest
  cases l with
  | nil => rfl
  | cons i l =>
    obtain ⟨hi, hl⟩ := List.forall_mem_cons.1 h
    obtain ⟨ts, hts⟩ := exists_intercalate_eq tokens i l
    have hread := foldlM_items hi hl [] frames rest
    rw [hts, List.append_assoc, ← hi.foldlM_firstItem] at hread
    rw [hts, List.append_assoc, List.cons_append, List.append_assoc]
    exact hread

/-! ## Objects -/

variable (key : ι → String)

theorem mapM_map_of_some {α β : Type} {f : β → Option α} {g : α → β} (h : ∀ a, f (g a) = some a)
    (l : List α) : (l.map g).mapM f = some l := by
  induction l with
  | nil => rfl
  | cons a l ih => simp [h, ih]

theorem ofFields_map_some (fields : List (String × Json)) :
    ofFields (fields.map fun f => (some f.1, f.2)) = .object fields := by
  unfold ofFields
  rw [mapM_map_of_some]
  intro f
  rfl

theorem foldlM_fields {i : ι} {l : List ι} (hi : Reads (tokens i) (item i))
    (h : ∀ j ∈ l, Reads (tokens j) (item j)) (read : List (String × Json)) (outer : List Frame)
    (rest : List Token) :
    ([Token.comma].intercalate ((i :: l).map fun i => .text (some (key i)) :: .colon :: tokens i) ++
        .closeObject :: rest).foldlM step
        ⟨.object (read.map fun f => (some f.1, f.2)) :: outer, .key⟩ =
      (complete (.object (read.reverse ++ (i :: l).map fun i => (key i, item i))) outer).bind
        fun s => rest.foldlM step s := by
  induction l generalizing i read with
  | nil =>
    rw [List.map_singleton, List.intercalate_singleton]
    show (tokens i ++ .closeObject :: rest).foldlM step
      ⟨.field (read.map fun f => (some f.1, f.2)) (some (key i)) :: outer, .value⟩ = _
    rw [hi]
    show ((complete (ofFields (((key i, item i) :: read).map fun f => (some f.1, f.2)).reverse)
      outer).bind fun s => rest.foldlM step s) = _
    rw [← List.map_reverse, ofFields_map_some, List.reverse_cons]
    rfl
  | cons j l ih =>
    obtain ⟨hj, hl⟩ := List.forall_mem_cons.1 h
    have hrest := ih hj hl ((key i, item i) :: read)
    rw [List.map_cons, List.reverse_cons, List.append_assoc] at hrest
    rw [List.map_cons, List.map_cons, List.intercalate_cons_cons, List.append_assoc,
      List.append_assoc]
    show (tokens i ++ .comma :: ([Token.comma].intercalate _ ++ .closeObject :: rest)).foldlM step
      ⟨.field (read.map fun f => (some f.1, f.2)) (some (key i)) :: outer, .value⟩ = _
    rw [hi]
    exact hrest

theorem reads_object {l : List ι} (h : ∀ i ∈ l, Reads (tokens i) (item i)) :
    Reads (.openObject :: [Token.comma].intercalate
        (l.map fun i => .text (some (key i)) :: .colon :: tokens i) ++ [.closeObject])
      (.object (l.map fun i => (key i, item i))) := by
  intro frames rest
  cases l with
  | nil => rfl
  | cons i l =>
    obtain ⟨hi, hl⟩ := List.forall_mem_cons.1 h
    -- the first token is a text, which is read alike as the first key and as any other
    obtain ⟨ts, hts⟩ := exists_intercalate_eq
      (fun i => Token.text (some (key i)) :: .colon :: tokens i) i l
    have hread := foldlM_fields key hi hl [] frames rest
    rw [hts] at hread
    rw [hts, List.append_assoc]
    exact hread

end

/-! ## Documents -/

section
variable {ι : Type} {text : ι → String} {item : ι → Json} {l : List ι}

theorem parse?_of_word {s : String} {v : Json} (h : Token.IsWord s.toList v) :
    parse? s = some v := by
  rw [parse?, h.scan, Option.bind_some]
  rfl

theorem exists_tokens (h : ∀ i ∈ l, parse? (text i) = some (item i)) :
    ∃ tokens : ι → List Token, ∀ i ∈ l, Token.Spells (text i).toList (tokens i) ∧
      Reads (tokens i) (item i) := by
  refine ⟨fun i => (Token.scan (text i).toList).getD [], fun i hi => ?_⟩
  obtain ⟨ts, hscan, hread⟩ := Option.bind_eq_some_iff.1 (h i hi)
  dsimp only
  rw [hscan]
  exact ⟨Token.spells_of_scan hscan, reads_of_ofTokens? hread⟩

/-- **Documents in a list** are read as the list of their values. -/
theorem parse?_list (h : ∀ i ∈ l, parse? (text i) = some (item i)) :
    parse? ("[" ++ ",".intercalate (l.map text) ++ "]") = some (.list (l.map item)) := by
  obtain ⟨tokens, htokens⟩ := exists_tokens h
  have hspells := (Token.Spells.intercalate fun i hi => (htokens i hi).1).enclose
    (c := '[') (d := ']') rfl rfl
  have hreads := reads_list fun i hi => (htokens i hi).2
  rw [parse?, String.toList_append, String.toList_append, String.toList_intercalate, List.map_map]
  show (Token.scan ('[' :: [','].intercalate (l.map fun i => (text i).toList) ++ [']'])).bind _ = _
  rw [hspells.scan, Option.bind_some, hreads.ofTokens?]

/-- **Documents under keys** are read as an object. -/
theorem parse?_object {key : ι → String} (h : ∀ i ∈ l, parse? (text i) = some (item i)) :
    parse? ("\x7b" ++ ",".intercalate (l.map fun i => quote (key i) ++ ":" ++ text i) ++ "\x7d") =
      some (.object (l.map fun i => (key i, item i))) := by
  obtain ⟨tokens, htokens⟩ := exists_tokens h
  have hfield : ∀ i ∈ l, Token.Spells ((quote (key i)).toList ++ ':' :: (text i).toList)
      (.text (some (key i)) :: .colon :: tokens i) := by
    intro i hi
    exact (Token.spells_of_scan (Token.scan_quote (key i))).join rfl (htokens i hi).1
  have hspells := (Token.Spells.intercalate hfield).enclose (c := '\x7b') (d := '\x7d') rfl rfl
  have hreads := reads_object key fun i hi => (htokens i hi).2
  rw [parse?, String.toList_append, String.toList_append, String.toList_intercalate, List.map_map]
  have htext : (l.map (String.toList ∘ fun i => quote (key i) ++ ":" ++ text i)) =
      l.map fun i => (quote (key i)).toList ++ ':' :: (text i).toList := by
    simp
  rw [htext]
  show (Token.scan ('\x7b' :: [','].intercalate _ ++ ['\x7d'])).bind _ = _
  rw [hspells.scan, Option.bind_some, hreads.ofTokens?]

end

end Json
end PulseSequencer
