import PulseSequencer.Device.Simulated
import PulseSequencer.Generator
import PulseSequencer.Proofs.Encoding
import PulseSequencer.Proofs.Session

/-!
How a program reaches the device.

The words of a program are cut into batches that lose, repeat and reorder nothing
(`batched_batches`), and the batches are handed over in one session.  `upload_log` says what the
device sees of it and what is reported, wherever the device fails.
-/

namespace PulseSequencer

/-! ## Batches -/

/-- A list in pieces of a size, of which only the last may be shorter. -/
structure Batched {α : Type} (size : Nat) (xs : List α) (bs : List (List α)) : Prop where
  flatten : bs.flatten = xs
  nonempty : ∀ b ∈ bs, b ≠ []
  le_size : ∀ b ∈ bs, b.length ≤ size
  full : ∀ b ∈ bs.dropLast, b.length = size
  /-- as many pieces as the ratio of the lengths, rounded up -/
  count : bs.length = (xs.length + size - 1) / size

theorem Batched.cons {α : Type} {size : Nat} (hsize : 0 < size) {xs : List α} (hxs : xs ≠ [])
    {bs : List (List α)} (h : Batched size (xs.drop size) bs) :
    Batched size xs (xs.take size :: bs) where
  flatten := by rw [List.flatten_cons, h.flatten, List.take_append_drop]
  nonempty := by
    refine List.forall_mem_cons.2 ⟨fun hnil => ?_, h.nonempty⟩
    rcases List.take_eq_nil_iff.1 hnil with h0 | h0
    · omega
    · exact hxs h0
  le_size := List.forall_mem_cons.2 ⟨List.length_take_le _ _, h.le_size⟩
  full := by
    cases bs with
    | nil => simp
    | cons b bs =>
      refine List.forall_mem_cons.2 ⟨?_, h.full⟩
      have hb : 0 < b.length := List.length_pos_iff.2 (h.nonempty b (by simp))
      have hlen := congrArg List.length h.flatten
      rw [List.flatten_cons, List.length_append, List.length_drop] at hlen
      rw [List.length_take]
      omega
  count := by
    have hpos : 0 < xs.length := List.length_pos_iff.2 hxs
    rw [List.length_cons, h.count, List.length_drop]
    rcases Nat.lt_or_ge xs.length size with hlt | hge
    · rw [Nat.div_eq_of_lt (by omega)]
      exact (Nat.div_eq_of_lt_le (by omega) (by omega)).symm
    · rw [← Nat.add_div_right _ hsize]
      congr 1
      omega

theorem batched_batches {α : Type} (size : Nat) (hsize : 0 < size) (xs : List α) :
    Batched size xs (batches size hsize xs) := by
  fun_induction batches size hsize xs with
  | case1 =>
    refine ⟨rfl, by simp, by simp, by simp, ?_⟩
    exact (Nat.div_eq_of_lt (by simp; omega)).symm
  | case2 x rest ih => exact ih.cons hsize (by simp)

/-! ## Words handed over -/

/-- The words that a call hands over. -/
def Call.batch : Call → List Word
  | .words batch => batch
  | _ => []

/-- The words that the device has been handed: those of the calls that it accepted. -/
def handed : List Entry → List Word
  | [] => []
  | (c, .ok _) :: log => c.batch ++ handed log
  | (_, .error _) :: log => handed log

theorem handed_accepted_append (done : List (Call × Word)) (log : List Entry) :
    handed (done.map Entry.accepted ++ log) =
      (done.map Prod.fst).flatMap Call.batch ++ handed log := by
  induction done with
  | nil => rfl
  | cons x done ih =>
    simp only [List.map_cons, List.cons_append, Entry.accepted, handed, List.flatMap_cons,
      List.append_assoc]
    rw [← ih]

theorem flatMap_batch_words (bs : List (List Word)) :
    (bs.map Call.words).flatMap Call.batch = bs.flatten := by
  induction bs with
  | nil => rfl
  | cons b bs ih =>
    rw [List.map_cons, List.flatMap_cons, ih, List.flatten_cons]
    rfl

/-- What comes of sending words in batches: the log of the calls and the result. -/
structure UploadLog (plan : List Call) (words : List Word) (bs : List (List Word))
    (log : List Entry) (result : Except TransportError Upload) : Prop where
  followed : Followed plan log
  ok_iff : (∃ u, result = .ok u) ↔ ∀ x ∈ log, ∃ w, x.2 = .ok w
  /-- what is reported; the call after the opening, the count and the batches reads back -/
  report : ∀ u, result = .ok u → u.words = words.length ∧ u.batches = bs.length ∧
    log[bs.length + 2]? = some (.pending, .ok u.pending)
  /-- a batch that fails leaves the device with those before it -/
  partly : ∀ j b err, log[j + 2]? = some (.words b, .error err) →
    bs[j]? = some b ∧ handed log = (bs.take j).flatten

theorem Compiler.compile_idle :
    Compiler.compile ⟨.ofNat 1, none⟩ (Sequence.attempt
      ⟨[Channel.resting true], Binary64.zero, Binary64.zero⟩ (.setStop (.ofNat 1))) =
      .ok ⟨[.triggerWait 1, .wait 0, .jump 0], 1, []⟩ := by
  let q := Sequence.attempt ⟨[Channel.resting true], Binary64.zero, Binary64.zero⟩
    (.setStop (.ofNat 1))
  have hevents : q.events = [] := by
    have hchannels : q.channels = [Channel.resting true] := by decide +kernel
    rw [Sequence.events, hchannels]
    exact List.mergeSort_nil
  show Compiler.compile _ q = _
  refine Compiler.compile_eq_ok.2
    ⟨by decide +kernel, by simp [hevents], by decide +kernel, ?_⟩
  rw [hevents]
  decide +kernel

namespace Generator

variable {σ : Type}

theorem batches_before {n : Word} {bs : List (List Word)} {pre later : List Call} {b : List Word}
    {j : Nat} (h : .count n :: (bs.map Call.words ++ [.pending]) = pre ++ .words b :: later)
    (hlen : pre.length = j + 1) :
    bs[j]? = some b ∧ pre.flatMap Call.batch = (bs.take j).flatten := by
  constructor
  · have hat := congrArg (·[j + 1]?) h
    simp only [List.getElem?_cons_succ] at hat
    rw [← hlen, List.getElem?_append_right (Nat.le_refl _), Nat.sub_self,
      List.getElem?_cons_zero] at hat
    rcases Nat.lt_or_ge j bs.length with hlt | hge
    · rw [List.getElem?_append_left (by simpa using hlt), List.getElem?_map] at hat
      obtain ⟨b', hb', heq⟩ := Option.map_eq_some_iff.1 hat
      cases heq
      exact hb'
    · rw [List.getElem?_append_right (by simpa using hge), List.getElem?_singleton] at hat
      split at hat <;> cases hat
  · have hpre : pre = (Call.count n :: (bs.map Call.words ++ [.pending])).take (j + 1) := by
      rw [h, ← hlen, List.take_left]
    have hrest : ∀ k, ([Call.pending].take k).flatMap Call.batch = [] := by
      intro k
      cases k with
      | zero => rfl
      | succ k => rw [List.take_of_length_le (by simp)]; rfl
    rw [hpre, List.take_succ_cons, List.flatMap_cons, List.take_append, List.flatMap_append, hrest,
      List.append_nil, ← List.map_take, flatMap_batch_words]
    rfl

theorem pending_read {n : Word} {bs : List (List Word)} {done : List (Call × Word)}
    (h : .count n :: (bs.map Call.words ++ [.pending]) = done.map Prod.fst) :
    done[bs.length + 1]? = some (.pending, (done.map Prod.snd).getLastD 0) := by
  obtain ⟨before, last, rfl, hbefore, hlast⟩ :=
    List.map_eq_append_iff.1 (show done.map Prod.fst = (_ :: bs.map _) ++ [.pending] from h.symm)
  obtain ⟨x, rfl, hx⟩ := List.map_eq_singleton_iff.1 hlast
  have hlen : before.length = bs.length + 1 := by
    rw [← List.length_map Prod.fst, hbefore]
    simp
  rw [← hlen, List.getElem?_append_right (Nat.le_refl _), Nat.sub_self, List.map_append]
  simp [← hx]

theorem upload_log (g : Generator) (d : Device σ) {words : List Word} (s : σ)
    (hlen : words.length < 2 ^ 32) :
    ∃ log, d.Answers s log (g.upload d words s).state ∧
      (g.upload d words s).calls = log.map Prod.fst ∧
      UploadLog (.openSession g.resource g.bitfile :: .count (BitVec.ofNat 32 words.length) ::
          ((batches g.batchSize g.batchSize_pos words).map Call.words ++ [.pending, .close]))
        words (batches g.batchSize g.batchSize_pos words) log (g.upload d words s).result := by
  rw [upload, if_neg (Nat.not_le.2 hlen)]
  generalize hbs : batches g.batchSize g.batchSize_pos words = bs
  have hcalls : g.uploadCalls words =
      .count (BitVec.ofNat 32 words.length) :: (bs.map Call.words ++ [.pending]) := by
    rw [uploadCalls, hbs]
  rw [hcalls]
  obtain ⟨log, hans, hlist, hlog⟩ := d.session_log g.resource g.bitfile
    (.count (BitVec.ofNat 32 words.length) :: (bs.map Call.words ++ [.pending])) s
  refine ⟨log, hans, hlist, ?_, ?_, ?_, ?_⟩
  · have := hlog.followed
    simpa using this
  · rw [← hlog.ok_iff]
    constructor
    · intro ⟨u, hu⟩
      obtain ⟨answers, hok, -⟩ := Except.map_eq_ok.1 hu
      exact ⟨answers, hok⟩
    · intro ⟨answers, hok⟩
      exact ⟨_, Except.map_eq_ok.2 ⟨answers, hok, rfl⟩⟩
  · intro u hu
    obtain ⟨answers, hok, rfl⟩ := Except.map_eq_ok.1 hu
    obtain ⟨done, w, v, hplan, rfl, rfl⟩ := hlog.succeeded hok
    refine ⟨rfl, rfl, ?_⟩
    have hread := pending_read hplan
    have hlt := (List.getElem?_eq_some_iff.1 hread).1
    rw [List.getElem?_map, List.cons_append, List.getElem?_cons_succ,
      List.getElem?_append_left hlt, hread]
    rfl
  · intro j b err hat
    obtain ⟨done, later, w, closing, hplan, hk, rfl⟩ := hlog.failed hat nofun
    obtain ⟨hb, hbefore⟩ := batches_before hplan (by rw [List.length_map, hk])
    refine ⟨hb, ?_⟩
    rw [List.cons_append, handed, handed_accepted_append, hbefore]
    cases closing <;> simp [handed, Call.batch]

/-- **The upload of a compiled program**, whatever the device does.  A program with more words than
the counter holds is refused without a call.  Any other one is handed over in batches, in one
session that follows its plan up to the first failure. -/
theorem program_uploads {c : Compiler} {q : Sequence} {p : Program} (hp : c.compile q = .ok p)
    (g : Generator) (d : Device σ) (s : σ) :
    ∃ words e, p.encode = .ok words ∧ g.program d p s = .ok e ∧
      (2 ^ 32 ≤ words.length → e.calls = [] ∧ e.state = s ∧
        ∃ text, e.result = .error (.writeFailed text)) ∧
      (words.length < 2 ^ 32 → ∃ (n : Word) (bs : List (List Word)) (log : List Entry),
        n.toNat = words.length ∧ Batched g.batchSize words bs ∧ d.Answers s log e.state ∧
        e.calls = log.map Prod.fst ∧
        UploadLog (.openSession g.resource g.bitfile :: .count n ::
          (bs.map Call.words ++ [.pending, .close])) words bs log e.result) := by
  obtain ⟨words, hw⟩ := Compiler.exists_encode hp
  refine ⟨words, g.upload d words s, hw, ?_, fun hlong => ?_, fun hlen => ?_⟩
  · rw [program, hw]
    rfl
  · rw [upload, if_pos hlong]
    exact ⟨rfl, rfl, _, rfl⟩
  · obtain ⟨log, hans, hcalls, hlog⟩ := g.upload_log d s hlen
    refine ⟨_, _, log, ?_, batched_batches _ g.batchSize_pos words, hans, hcalls, hlog⟩
    rw [BitVec.toNat_ofNat, Nat.mod_eq_of_lt hlen]

/-- Three words in batches of two, to a device that fails the second batch. -/
theorem program_uploads_in_two_batches :
    let q := Sequence.attempt ⟨[Channel.resting true], Binary64.zero, Binary64.zero⟩
      (.setStop (.ofNat 1))
    let c : Compiler := ⟨.ofNat 1, none⟩
    let g : Generator := ⟨"RIO0", none, 2, by decide⟩
    let d := Device.simulated [⟨.words, 1, .writeFailed "fifo"⟩] 0
    ∃ p words e, c.compile q = .ok p ∧ p.encode = .ok words ∧ g.program d p {} = .ok e ∧
      ∃ (n : Word) (bs : List (List Word)) (log : List Entry), n.toNat = 3 ∧ bs.length = 2 ∧
        d.Answers {} log e.state ∧ e.calls = log.map Prod.fst ∧
        UploadLog (.openSession "RIO0" none :: .count n ::
          (bs.map Call.words ++ [.pending, .close])) words bs log e.result := by
  intro q c g d
  obtain ⟨words, e, hw, he, -, hsend⟩ := program_uploads Compiler.compile_idle g d {}
  have hlen : words.length = 3 := by
    have hwords : (Program.encode ⟨[.triggerWait 1, .wait 0, .jump 0], 1, []⟩).toOption =
        some [0x03000001#32, 0x01000000#32, 0#32] := by decide +kernel
    rw [hw] at hwords
    cases hwords
    rfl
  obtain ⟨n, bs, log, hn, hbs, hans, hcalls, hlog⟩ := hsend (by omega)
  have hcount : bs.length = 2 := by simpa [hlen, g] using hbs.count
  exact ⟨_, words, e, Compiler.compile_idle, hw, he, n, bs, log, by omega, hcount, hans, hcalls,
    hlog⟩

end Generator

end PulseSequencer
