import PulseSequencer.Description.Load
import PulseSequencer.Proofs.Json.Library

/-!
Descriptions as JSON documents.

A description is read back from the value that it is written as (`ofJson?_toJson`), field by field:
nothing is left out and nothing is taken for its fallback.  A library that follows the grammar of
JSON keeps that value as soon as it keeps the numbers in it (`keeps_toJson`), and then the file of a
description holds the description.
-/

namespace PulseSequencer

/-! ## Values read back -/

theorem Quantity.natural?_whole (n : Nat) : natural? (.whole n) = some n := by
  simp [natural?]

/-- The fields of a pulse as its document gives them. -/
def Pulse.source : Pulse → PulseSource
  | .add channel t0 duration => .keyed "add" [(.name "channel", .whole channel),
      (.name "t0", .number t0), (.name "duration", .number duration)]
  | .append channel delay duration => .keyed "append" [(.name "channel", .whole channel),
      (.name "delay", .number delay), (.name "duration", .number duration)]
  | .switch channel t => .keyed "switch" [(.name "channel", .whole channel), (.name "t", .number t)]

theorem pulseSource?_pulseToJson (p : Pulse) :
    Json.pulseSource? (Description.pulseToJson p) = some p.source := by
  cases p <;> rfl

theorem pulse?_source (p : Pulse) : p.source.pulse? = some p := by
  cases p <;> simp [Pulse.source, PulseSource.pulse?, PulseSource.valuesOf, PulseSource.required?,
    PulseSource.optional?, Quantity.natural?_whole, Quantity.time?]

namespace Description

theorem nullable_orNull {α : Type} {f : α → Json} {read : Json → Option α}
    (hnull : ∀ a, Json.spelling.isNull? (f a) = some false) (hread : ∀ a, read (f a) = some a)
    (x : Option α) : Json.spelling.nullable read (orNull f x) = some x := by
  cases x with
  | none => rfl
  | some a =>
    have hreveal : Json.spelling.reveal (f a) = some (f a) := rfl
    simp [Spelling.nullable, orNull, hreveal, hnull a, hread a]

theorem natural?_integer (n : Nat) :
    Json.spelling.value Json.spelling.natural? (.integer n) = some n := by
  simp [Spelling.value, Json.spelling]

/-- A list of levels. -/
def flags? (v : Json) : Option (List Bool) := do
  let items ← Json.spelling.value Json.spelling.items? v
  items.mapM (Json.spelling.value Json.spelling.flag?)

/-- A list of pulses. -/
def pulses? (v : Json) : Option (List Pulse) := do
  let items ← Json.spelling.value Json.spelling.items? v
  items.mapM fun v => (Json.spelling.pulse v).bind PulseSource.pulse?

theorem flags?_list (levels : List Bool) : flags? (.list (levels.map Json.bool)) = some levels := by
  refine Json.mapM_map_of_some ?_ levels
  intro b
  rfl

theorem pulses?_list (pulses : List Pulse) :
    pulses? (.list (pulses.map pulseToJson)) = some pulses := by
  refine Json.mapM_map_of_some ?_ pulses
  intro p
  show (Json.pulseSource? (pulseToJson p)).bind PulseSource.pulse? = some p
  rw [pulseSource?_pulseToJson, Option.bind_some, pulse?_source]

/-- Every field of a description stands once in its document and is read by itself. -/
theorem ofJson?_eq (d : Description) : ofJson? d.toJson = (do
    let nchannels ← Json.spelling.nullable (Json.spelling.value Json.spelling.natural?)
      (orNull (fun n : Nat => .integer n) d.nchannels)
    let defaults ← Json.spelling.nullable flags?
      (orNull (fun levels => .list (levels.map Json.bool)) d.defaults)
    let stopTime ← Json.spelling.nullable (Json.spelling.value Json.spelling.number?)
      (orNull Json.number d.stopTime)
    let pulses ← pulses? (.list (d.pulses.map pulseToJson))
    return ⟨nchannels, defaults, d.startTime, stopTime, pulses⟩) := rfl

/-- **A description is read back from the value that it is written as.** -/
theorem ofJson?_toJson (d : Description) : ofJson? d.toJson = some d := by
  have hcount := nullable_orNull (fun _ => rfl) natural?_integer d.nchannels
  have hdefaults := nullable_orNull (fun _ => rfl) flags?_list d.defaults
  have hstop : Json.spelling.nullable (Json.spelling.value Json.spelling.number?)
      (orNull Json.number d.stopTime) = some d.stopTime :=
    nullable_orNull (f := Json.number) (fun _ => rfl) (fun _ => rfl) d.stopTime
  rw [ofJson?_eq, hcount, hdefaults, hstop, pulses?_list]
  rfl

end Description

/-! ## Written descriptions -/

/-- The times of a pulse. -/
def Pulse.times : Pulse → List Binary64
  | .add _ t0 duration => [t0, duration]
  | .append _ delay duration => [delay, duration]
  | .switch _ t => [t]

def Pulse.channel : Pulse → Nat
  | .add channel .. => channel
  | .append channel .. => channel
  | .switch channel _ => channel

namespace Description

/-- All times of a description. -/
def times (d : Description) : List Binary64 :=
  d.startTime :: d.stopTime.toList ++ d.pulses.flatMap Pulse.times

/-- The times of a description are finite, and its channels are counted in 64 bits. -/
structure Finite (d : Description) : Prop where
  nchannels : ∀ n ∈ d.nchannels, n < 2 ^ 64
  channels : ∀ p ∈ d.pulses, p.channel < 2 ^ 64
  times : ∀ t ∈ d.times, t.isFinite = true

/-! ### Levels -/

theorem readableItems_map {α : Type} {f : α → Json} {n : Nat}
    (h : ∀ a, (f a).readable n = true) (l : List α) : Json.readableItems n (l.map f) = true := by
  induction l with
  | nil => rfl
  | cons a l ih => simp [Json.readableItems, h, ih]

theorem readable_orNull {α : Type} {f : α → Json} {n : Nat} (h : ∀ a, (f a).readable n = true)
    (x : Option α) : (orNull f x).readable n = true := by
  cases x with
  | none => rfl
  | some a => exact h a

theorem readable_pulseToJson (n : Nat) (p : Pulse) : (pulseToJson p).readable (n + 1) = true := by
  cases p <;> rfl

theorem readable_flags (n : Nat) (levels : List Bool) :
    (Json.list (levels.map Json.bool)).readable (n + 1) = true :=
  readableItems_map (fun _ => rfl) levels

theorem readable_pulses (n : Nat) (pulses : List Pulse) :
    (Json.list (pulses.map pulseToJson)).readable (n + 2) = true :=
  readableItems_map (readable_pulseToJson n) pulses

theorem readable_toJson (n : Nat) (d : Description) : d.toJson.readable (n + 3) = true := by
  have hcount : (orNull (fun n : Nat => .integer n) d.nchannels).readable (n + 2) = true :=
    readable_orNull (fun _ => rfl) d.nchannels
  have hdefaults := readable_orNull (readable_flags (n + 1)) d.defaults
  have hstop : (orNull Json.number d.stopTime).readable (n + 2) = true :=
    readable_orNull (fun _ => rfl) d.stopTime
  have hstart : (Json.number d.startTime).readable (n + 2) = true := rfl
  have hpulses := readable_pulses n d.pulses
  show (decide (0 < n + 3) && Json.readableFields (n + 2) _) = true
  simp [Json.readableFields, hcount, hdefaults, hstart, hstop, hpulses]

/-! ### Values -/

section
variable {lib : Json.Library} {kept : Binary64 → Prop}

theorem keeps_orNull (hlib : lib.Lawful) {α : Type} {f : α → Json} {x : Option α}
    (h : ∀ a ∈ x, lib.Keeps (f a)) : lib.Keeps (orNull f x) := by
  cases x with
  | none => exact hlib.keeps_null
  | some a => exact h a rfl

theorem keeps_pulseToJson (hlib : lib.Lawful) (hnumbers : lib.KeepsNumbers kept) {p : Pulse}
    (hchannel : p.channel < 2 ^ 64) (htimes : ∀ t ∈ p.times, t.isFinite = true ∧ kept t) :
    lib.Keeps (pulseToJson p) := by
  have htime : ∀ t ∈ p.times, lib.Keeps (.number t) := by
    intro t ht
    exact hnumbers.double t (htimes t ht).1 (htimes t ht).2
  have hnatural := hnumbers.natural p.channel hchannel
  have hlevels := readable_pulseToJson 126 p
  cases p with
  | add | append | switch =>
    refine hlib.keeps_object ?_ hlevels
    simp_all [Pulse.times, Pulse.channel, hlib.keeps_text]

theorem keeps_toJson (hlib : lib.Lawful) (hnumbers : lib.KeepsNumbers kept) {d : Description}
    (h : d.Finite) (hkept : ∀ t ∈ d.times, kept t) : lib.Keeps d.toJson := by
  have htime : ∀ t ∈ d.times, lib.Keeps (.number t) := by
    intro t ht
    exact hnumbers.double t (h.times t ht) (hkept t ht)
  have hcount : lib.Keeps (orNull (fun n : Nat => .integer n) d.nchannels) :=
    keeps_orNull hlib fun n hn => hnumbers.natural n (h.nchannels n hn)
  have hdefaults : lib.Keeps (orNull (fun levels => .list (levels.map Json.bool)) d.defaults) :=
    keeps_orNull hlib fun levels _ => hlib.keeps_list
      (List.forall_mem_map.2 fun b _ => hlib.keeps_bool b) (readable_flags 126 levels)
  have hstart : lib.Keeps (.number d.startTime) := htime _ (by simp [times])
  have hstop : lib.Keeps (orNull Json.number d.stopTime) :=
    keeps_orNull hlib fun t ht => htime t (by simp [times, Option.mem_toList.2 ht])
  have hpulses : lib.Keeps (.list (d.pulses.map pulseToJson)) := by
    refine hlib.keeps_list (List.forall_mem_map.2 fun p hp => ?_) (readable_pulses 125 d.pulses)
    refine keeps_pulseToJson hlib hnumbers (h.channels p hp) fun t ht => ?_
    have hmem : t ∈ d.times := by
      rw [times]
      exact List.mem_append_right _ (List.mem_flatMap.2 ⟨p, hp, ht⟩)
    exact ⟨h.times t hmem, hkept t hmem⟩
  refine hlib.keeps_object ?_ (readable_toJson 124 d)
  simp [hcount, hdefaults, hstart, hstop, hpulses]

theorem parseJson?_write (h : lib.Keeps d.toJson) :
    parseJson? lib (lib.write d.toJson) = some d := by
  rw [parseJson?, h, Option.bind_some, ofJson?_toJson]

end

end Description

/-! ## Files -/

theorem Folder.readText_file {folder : Folder} {path s : String}
    (h : folder.entry? path = some (.file s.toUTF8)) : folder.readText path = .ok s := by
  have hdecode : String.fromUTF8? s.toUTF8 = some s := dif_pos s.isValidUTF8
  unfold readText
  rw [h]
  dsimp only
  rw [hdecode]

theorem Description.loadWith_json {lib : Json.Library} {folder : Folder} {path s : String}
    {d : Description}
    (hpath : isJsonPath path = true) (hfile : folder.entry? path = some (.file s.toUTF8))
    (hread : parseJson? lib s = some d) : loadWith lib folder path = .ok d := by
  have htext : (folder.readText path).mapError Error.file = .ok s := by
    rw [Folder.readText_file hfile]
    rfl
  unfold loadWith
  rw [htext, hpath]
  simp [bind, Except.bind, hread, pure, Except.pure]

theorem Folder.entry?_file {path : String} {bytes : ByteArray} (hne : path.isEmpty = false)
    (hend : endsInDirectory path = false) :
    Folder.entry? ⟨[(path, .file bytes)]⟩ path = some (.file bytes) := by
  unfold entry?
  simp [hne, hend]

/-- The largest channel number, a minus zero, and times from very short to very long. -/
def Description.sample : Description where
  nchannels := some (2 ^ 64 - 1)
  defaults := some [true, false]
  startTime := Decimal.toBinary64 true ⟨0, 0⟩
  stopTime := some (Decimal.toBinary64 false ⟨123456789012345, 0⟩)
  pulses := [
    .add (2 ^ 64 - 1) (Decimal.toBinary64 false ⟨75, -6⟩) (Decimal.toBinary64 false ⟨1, -22⟩),
    .append 0 (Decimal.toBinary64 true ⟨1, -1⟩) (Decimal.toBinary64 false ⟨12, 0⟩),
    .switch 1 (Decimal.toBinary64 true ⟨314159265358979, -14⟩)]

theorem Folder.endsInDirectory_json : endsInDirectory "a.json" = false := by
  have hsplit : "a.json".splitOn "/" = ["a.json"] := by
    -- the split recurses on positions, which only unfolds one character at a time
    unfold String.splitOn
    rw [if_neg (by decide)]
    iterate 7
      rw [String.splitOnAux]
      simp +decide only [↓reduceIte]
  unfold endsInDirectory
  rw [hsplit]
  decide

/-- **A description that is written to a JSON file is loaded from it.** Of the library it takes the
grammar of JSON, and that the numbers of the description are among those that it reads back.  With a
library that keeps every finite double (`kept` is true of all), these are all descriptions whose
times are finite. -/
theorem Description.load_written {lib : Json.Library} (hlib : lib.Lawful)
    {kept : Binary64 → Prop} (hnumbers : lib.KeepsNumbers kept) {d : Description} (h : d.Finite)
    (hkept : ∀ t ∈ d.times, kept t) {folder : Folder} {path : String}
    (hpath : isJsonPath path = true)
    (hfile : folder.entry? path = some (.file (lib.write d.toJson).toUTF8)) :
    loadWith lib folder path = .ok d :=
  loadWith_json hpath hfile (parseJson?_write (keeps_toJson hlib hnumbers h hkept))

theorem Description.load_written_sample :
    sample.Finite ∧ (∀ t ∈ sample.times, Json.ShortForm t) ∧ isJsonPath "a.json" = true ∧
    load ⟨[("a.json", .file sample.toJson.compact.toUTF8)]⟩ "a.json" = .ok sample := by
  have hfinite : sample.Finite := ⟨by decide, by decide, by decide +kernel⟩
  have hshort : ∀ t ∈ sample.times, Json.ShortForm t := by decide +kernel
  exact ⟨hfinite, hshort, by decide, load_written Json.Library.standard_lawful
    Json.Library.standard_keepsNumbers hfinite hshort (by decide)
    (Folder.entry?_file (by decide) Folder.endsInDirectory_json)⟩

end PulseSequencer
