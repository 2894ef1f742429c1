import PulseSequencer.Json.Writer
import PulseSequencer.Proofs.Json.Number

/-!
Texts inside texts.

A text is scanned from left to right, so what stands in front of the rest can be replaced by its
tokens (`Spells`); only a word has to be followed by a character that ends it.  Whatever can be
scanned by itself spells its tokens (`spells_of_scan`), and so do rows of such pieces with commas
between them and brackets around them.
-/

namespace PulseSequencer
namespace Json

namespace Token

/-! ## Scanning what is left of a text -/

/-- The tokens of a text of which only `cs` is left. -/
def scanFrom (s : Scan) (cs : List Char) : Option (List Token) :=
  (cs.foldlM Scan.step s).bind Scan.finish

theorem scanFrom_cons (s : Scan) (c : Char) (cs : List Char) :
    scanFrom s (c :: cs) = (s.step c).bind (scanFrom · cs) := by
  simp only [scanFrom, List.foldlM_cons, Option.bind_eq_bind, Option.bind_assoc]

/-- What follows a word: nothing, or a character that ends it. -/
def Ends (rest : List Char) : Prop := ∀ c ∈ rest.head?, isBoundary c = true

/-- Characters that may be replaced by their tokens in front of a text that ends a word. -/
def Spells (cs : List Char) (ts : List Token) : Prop :=
  ∀ toks rest, Ends rest →
    scanFrom ⟨toks, .between⟩ (cs ++ rest) = scanFrom ⟨ts.reverse ++ toks, .between⟩ rest

theorem scanFrom_punctuation {c : Char} {t : Token} (h : punctuation? c = some t)
    (toks : List Token) (rest : List Char) :
    scanFrom ⟨toks, .between⟩ (c :: rest) = scanFrom ⟨t :: toks, .between⟩ rest := by
  have hblank : isBlank c = false ∧ c ≠ '"' := by
    unfold punctuation? at h
    split at h
    case h_7 => cases h
    all_goals decide
  simp [scanFrom_cons, Scan.step, atBoundary, hblank, h]

theorem isBoundary_of_punctuation? {c : Char} {t : Token} (h : punctuation? c = some t) :
    isBoundary c = true := by
  simp [isBoundary, h]

theorem scanFrom_append (s : Scan) (cs rest : List Char) :
    scanFrom s (cs ++ rest) = (cs.foldlM Scan.step s).bind (scanFrom · rest) := by
  simp only [scanFrom, List.foldlM_append, Option.bind_eq_bind, Option.bind_assoc]

/-- A scan with tokens in front of its own. -/
def Scan.after (toks : List Token) (s : Scan) : Scan := ⟨s.tokens ++ toks, s.place⟩

theorem Scan.step_after (toks : List Token) (s : Scan) (c : Char) :
    (s.after toks).step c = (s.step c).map (after toks) := by
  have hboundary : ∀ ts, atBoundary (ts ++ toks) c = (atBoundary ts c).after toks := by
    intro ts
    unfold atBoundary
    split
    · rfl
    · split
      · rfl
      · split <;> rfl
  obtain ⟨tokens, place⟩ := s
  cases place with
  | between => simp only [step, after, hboundary, Option.map_some]
  | word read =>
    simp only [step, after, apply_ite (Option.map (after toks)), Option.map_map, Option.map_some]
    congr 2
    funext v
    exact hboundary (.value v :: tokens)
  | quoted units =>
    simp only [step, after, apply_ite (Option.map (after toks)), Option.map_some, Option.map_none,
      List.cons_append]
  | escape units =>
    simp only [step, after, apply_ite (Option.map (after toks)), Option.map_map, Option.map_some]
    rfl
  | code units left read =>
    simp only [step, after, Option.map_map]
    congr 1
    funext n
    dsimp only [Function.comp]
    split <;> rfl

theorem Scan.foldlM_after (toks : List Token) (s : Scan) (cs : List Char) :
    cs.foldlM step (s.after toks) = (cs.foldlM step s).map (after toks) := by
  induction cs generalizing s with
  | nil => rfl
  | cons c cs ih =>
    simp only [List.foldlM_cons, step_after, Option.bind_eq_bind, Option.bind_map,
      Option.map_bind]
    congr 1
    funext s'
    exact ih s'

/-- A text that could end here goes on as if its last word had been ended. -/
theorem Scan.scanFrom_of_finish {s : Scan} {ts : List Token} (h : s.finish = some ts)
    (toks : List Token) {rest : List Char} (hrest : Ends rest) :
    scanFrom (s.after toks) rest = scanFrom ⟨ts.reverse ++ toks, .between⟩ rest := by
  obtain ⟨tokens, place⟩ := s
  cases place with
  | between =>
    obtain rfl := Option.some.inj h
    rw [List.reverse_reverse]
    rfl
  | word read =>
    obtain ⟨v, hv, rfl⟩ := Option.map_eq_some_iff.1 h
    rw [List.reverse_reverse]
    cases rest with
    | nil => simp [scanFrom, after, finish, hv]
    | cons d rest =>
      have hd : isBoundary d = true := hrest d rfl
      rw [scanFrom_cons, scanFrom_cons]
      simp [step, after, hd, hv]
  | quoted units => cases h
  | escape units => cases h
  | code units left read => cases h

/-- **What can be scanned by itself can be replaced by its tokens.** -/
theorem spells_of_scan {cs : List Char} {ts : List Token} (h : scan cs = some ts) :
    Spells cs ts := by
  intro toks rest hrest
  obtain ⟨s, hs, hfinish⟩ := Option.bind_eq_some_iff.1 h
  have hafter := Scan.foldlM_after toks ⟨[], .between⟩ cs
  rw [hs] at hafter
  rw [scanFrom_append]
  show (cs.foldlM Scan.step (Scan.after toks ⟨[], .between⟩)).bind _ = _
  rw [hafter, Option.map_some, Option.bind_some, Scan.scanFrom_of_finish hfinish toks hrest]

theorem Spells.scan {cs : List Char} {ts : List Token} (h : Spells cs ts) :
    scan cs = some ts := by
  have hscan := h [] [] (by simp [Ends])
  rw [List.append_nil, List.append_nil] at hscan
  calc Token.scan cs = scanFrom ⟨[], .between⟩ cs := rfl
    _ = scanFrom ⟨ts.reverse, .between⟩ [] := hscan
    _ = some ts := by simp [scanFrom, Scan.finish]

theorem Spells.nil : Spells [] [] := fun _ _ _ => rfl

theorem Spells.join {cs cs' : List Char} {ts ts' : List Token} {c : Char} {t : Token}
    (h : Spells cs ts) (hc : punctuation? c = some t) (h' : Spells cs' ts') :
    Spells (cs ++ c :: cs') (ts ++ t :: ts') := by
  intro toks rest hrest
  have hends : Ends (c :: (cs' ++ rest)) := by
    intro d hd
    obtain rfl := Option.some.inj hd
    exact isBoundary_of_punctuation? hc
  rw [List.append_assoc, List.cons_append, h toks _ hends, scanFrom_punctuation hc, h' _ _ hrest]
  simp

theorem Spells.intercalate {α : Type} {l : List α} {f : α → List Char} {g : α → List Token}
    (h : ∀ a ∈ l, Spells (f a) (g a)) :
    Spells ([','].intercalate (l.map f)) ([Token.comma].intercalate (l.map g)) := by
  induction l with
  | nil => exact .nil
  | cons a l ih =>
    have ha := h a List.mem_cons_self
    have hl := ih fun b hb => h b (List.mem_cons_of_mem a hb)
    cases l with
    | nil => simpa using ha
    | cons b l => simpa using ha.join (c := ',') rfl hl

theorem Spells.enclose {cs : List Char} {ts : List Token} {c d : Char} {t u : Token}
    (h : Spells cs ts) (hc : punctuation? c = some t) (hd : punctuation? d = some u) :
    Spells (c :: cs ++ [d]) (t :: ts ++ [u]) := by
  have hopen : Spells (c :: cs) (t :: ts) := Spells.nil.join hc h
  exact hopen.join hd .nil

/-! ## Words -/

theorem scanFrom_word {cs : List Char} (h : ∀ c ∈ cs, isBoundary c = false) (read : List Char) :
    scanFrom ⟨[], .word read⟩ cs = scanFrom ⟨[], .word (cs.reverse ++ read)⟩ [] := by
  induction cs generalizing read with
  | nil => rfl
  | cons c cs ih =>
    obtain ⟨hc, hcs⟩ := List.forall_mem_cons.1 h
    rw [scanFrom_cons]
    simp only [Scan.step, hc, Bool.false_eq_true, if_false, Option.bind_some]
    rw [ih hcs]
    simp

theorem IsWord.scan {cs : List Char} {v : Json} (h : IsWord cs v) :
    scan cs = some [.value v] := by
  cases cs with
  | nil => exact absurd rfl h.ne_nil
  | cons c cs =>
    obtain ⟨hc, hcs⟩ := List.forall_mem_cons.1 h.inside
    have hstart : atBoundary [] c = ⟨[], .word [c]⟩ := by
      simp only [isBoundary, Bool.or_eq_false_iff, decide_eq_false_iff_not,
        Option.isSome_eq_false_iff, Option.isNone_iff_eq_none] at hc
      simp [atBoundary, hc]
    show scanFrom ⟨[], .between⟩ (c :: cs) = _
    rw [scanFrom_cons]
    simp only [Scan.step, hstart, Option.bind_some]
    rw [scanFrom_word hcs]
    simp [scanFrom, Scan.finish, h.value]

/-! ## Quoted texts -/

theorem characters?_map_toNat (cs : List Char) : characters? (cs.map Char.toNat) = some cs := by
  induction cs with
  | nil => rfl
  | cons c cs ih =>
    have hvalid : c.toNat < 0xD800 ∨ 0xDFFF < c.toNat :=
      c.valid.imp_right And.left
    rw [List.map_cons]
    unfold characters?
    rw [if_pos hvalid, ih, Option.map_some, Char.ofNat_toNat]

theorem padded_control : ∀ n < 0x20, (Text.padded 16 4 n).toList =
    ['0', '0', Nat.digitChar (n / 16), Nat.digitChar (n % 16)] := by
  decide +kernel

theorem hexDigit?_digitChar : ∀ n < 16, hexDigit? (Nat.digitChar n) = some n := by
  decide

theorem scanFrom_escape (c : Char) (toks : List Token) (units : List Nat) (rest : List Char) :
    scanFrom ⟨toks, .quoted units⟩ ((escape c).toList ++ rest) =
      scanFrom ⟨toks, .quoted (c.toNat :: units)⟩ rest := by
  unfold escape
  iterate 7
    split
    · rename_i hc
      subst hc
      rfl
  split
  · -- a control character, as a code of four digits
    rename_i hc
    have hhigh := hexDigit?_digitChar (c.toNat / 16) (by omega)
    have hlow := hexDigit?_digitChar (c.toNat % 16) (by omega)
    have hzero : hexDigit? '0' = some 0 := rfl
    rw [String.toList_append, padded_control _ hc]
    show scanFrom _ ('\\' :: 'u' :: '0' :: '0' :: _ :: _ :: rest) = _
    simp [scanFrom_cons, Scan.step, hhigh, hlow, hzero, Nat.div_add_mod]
  · -- any other character stands for itself
    rename_i hc
    rw [Char.toString_eq_singleton, String.toList_singleton, List.singleton_append, scanFrom_cons]
    simp [Scan.step, *]

theorem scanFrom_quoted (cs : List Char) (toks : List Token) (units : List Nat) (rest : List Char) :
    scanFrom ⟨toks, .quoted units⟩ ((String.join (cs.map escape)).toList ++ rest) =
      scanFrom ⟨toks, .quoted ((cs.map Char.toNat).reverse ++ units)⟩ rest := by
  induction cs generalizing units with
  | nil => rfl
  | cons c cs ih =>
    rw [List.map_cons, String.join_cons, String.toList_append, List.append_assoc,
      scanFrom_escape, ih]
    simp

theorem scan_quote (s : String) : scan (quote s).toList = some [.text (some s)] := by
  have hopen : (quote s).toList = '"' :: ((String.join (s.toList.map escape)).toList ++ ['"']) := by
    simp [quote]
  have hclose : ofUnits ((s.toList.map Char.toNat).reverse ++ []).reverse = .text (some s) := by
    simp [ofUnits, characters?_map_toNat]
  show scanFrom ⟨[], .between⟩ (quote s).toList = _
  rw [hopen, scanFrom_cons]
  show scanFrom ⟨[], .quoted []⟩ _ = _
  rw [scanFrom_quoted, scanFrom_cons]
  show scanFrom ⟨[ofUnits _], .between⟩ [] = _
  rw [hclose]
  rfl

end Token
end Json
end PulseSequencer
