import Bitplane.Proofs.CheckLog.Findings

/-! # The verdict of a run of checks

A check is counted whatever its answer. One that fails adds a text with its number behind those that
are there and ends the success of the run; one that passes adds nothing. So at any moment of a run
the log has one text for each check that failed, and the run is a success as long as it has none.

* `Finding.subject`, `Finding.detail`, `Failure.text_eq`: the text of a failure, parted at the
  number.
* `Extends`: what one more check does to a log; `extends_make`: every check does that.
* `Tallies`: a log against the answers so far; `Tallies.concat` keeps it along a check and
  `tallies_makeAll` along a run.
* `verdict_counts_failures`: the state of a run from its start, whatever the checks. -/

namespace Bitplane

/-! ## Texts -/

/-- What a check compared. -/
def Finding.subject : Finding → String
  | values .. => "value comparison"
  | sizes .. | pixel .. | padding .. => "image comparison"
  | count .. => "label count"
  | labels .. => "label map"
  | flag what .. => what

/-- What the text of a failure says behind the number of the check. -/
def Finding.detail : Finding → String
  | values e a d =>
    s!"\ndifference = {Decimal.text (e - a).abs} but allowed delta = {Decimal.text d}\n" ++
    s!"expected = {Decimal.text e}, actual = {Decimal.text a}"
  | sizes e a => s!" - dimension mismatch {e.1}x{e.2} vs {a.1}x{a.2}"
  | pixel x y e a =>
    s!" - pixel mismatch at ({x}, {y})\nexpected:\n{e.numberedText}actual:\n{a.numberedText}"
  | padding a => s!" - padding bits differ\n{a.bitText}"
  | count e a => s!": expected {e}, got {a}"
  | labels m n => s!" uses labels up to {m} but reports {n} components"
  | flag _ e a => s!": expected {e}, got {a}"

theorem toString_string (s : String) : toString s = s := rfl

/-- **The text of a failure** says what was compared, then the number of the check. -/
theorem Failure.text_eq (name : String) (f : Failure) : f.text name =
    s!"Failure in {name}_reg: {f.finding.subject} for index {f.index}" ++ f.finding.detail := by
  obtain ⟨k, f⟩ := f
  apply String.toList_inj.mp
  unfold text Finding.subject Finding.detail
  cases f <;> simp [toString_string]

/-- No digit follows the number. -/
theorem Finding.head_detail (f : Finding) {c : Char} (h : f.detail.toList.head? = some c) :
    c.isDigit = false := by
  unfold detail at h
  cases f <;> simp [toString_string] at h <;> subst h <;> decide

/-- **The text is that of a failure of the check with number `k`**: the number stands in it behind
what was compared, and no digit behind the number. -/
def IsFailureText (name : String) (k : Nat) (t : String) : Prop :=
  ∃ subject detail : String, t = s!"Failure in {name}_reg: {subject} for index {k}" ++ detail ∧
    ∀ c, detail.toList.head? = some c → c.isDigit = false

theorem Failure.isFailureText (name : String) (f : Failure) :
    IsFailureText name f.index (f.text name) :=
  ⟨_, _, f.text_eq name, fun _ h => f.finding.head_detail h⟩

/-- What a check finds, if anything. -/
def Check.finding : Check → Option Finding
  | values e a d => CheckLog.findValues e a d
  | rasters e a => CheckLog.findRasters e a
  | labels e a g => CheckLog.findLabels e a g
  | flag e a w => CheckLog.findFlag e a w

namespace CheckLog

variable {l l' : CheckLog} {v : Bool} {vs : List Bool} {cs : List Check}

/-! ## One check -/

/-- **One more check is in the log**, with the answer `v`. -/
structure Extends (l : CheckLog) (v : Bool) (l' : CheckLog) : Prop where
  name_eq : l'.name = l.name
  index_eq : l'.index = l.index + 1
  texts_of_pass : v = true → l'.texts = l.texts
  /-- One text more, behind the others. -/
  texts_of_fail : v = false → ∃ t, IsFailureText l.name (l.index + 1) t ∧ l'.texts = l.texts ++ [t]
  succeeded_eq : l'.succeeded = (l.succeeded && v)

theorem texts_fail (l : CheckLog) (f : Finding) :
    (l.fail f).texts = l.texts ++ [Failure.text l.name ⟨l.index, f⟩] := List.map_append

theorem extends_check (l : CheckLog) (found : Option Finding) :
    l.Extends (l.check found).1 (l.check found).2 := by
  cases found with
  | none => exact ⟨rfl, rfl, fun _ => rfl, nofun, (Bool.and_true _).symm⟩
  | some f =>
    refine ⟨rfl, rfl, nofun, fun _ => ?_, (Bool.and_false _).symm⟩
    exact ⟨_, Failure.isFailureText l.name ⟨l.index + 1, f⟩, texts_fail l.next f⟩

theorem make_eq (l : CheckLog) (c : Check) : l.make c = l.check c.finding := by
  cases c with
  | values e a d => exact l.checkValues_eq e a d
  | rasters e a => exact l.checkRasters_eq e a
  | labels e a g => exact l.checkLabels_eq e a g
  | flag e a w => exact l.checkFlag_eq e a w

theorem extends_make (l : CheckLog) (c : Check) : l.Extends (l.make c).1 (l.make c).2 := by
  rw [make_eq]
  exact l.extends_check c.finding

/-! ## A run -/

/-- **The log agrees with the answers so far.** -/
structure Tallies (l : CheckLog) (vs : List Bool) : Prop where
  index_eq : l.index = vs.length
  length_texts : l.texts.length = vs.count false
  succeeded_iff : l.succeeded = true ↔ false ∉ vs

theorem tallies_start (name : String) (mode : CheckMode) : (start name mode).Tallies [] :=
  ⟨rfl, rfl, by simp [start]⟩

theorem Tallies.concat (h : l.Tallies vs) (hl : l.Extends v l') : l'.Tallies (vs ++ [v]) where
  index_eq := by rw [hl.index_eq, h.index_eq, List.length_append, List.length_singleton]
  length_texts := by
    rw [List.count_append, ← h.length_texts]
    cases v with
    | true => rw [hl.texts_of_pass rfl]; rfl
    | false =>
      obtain ⟨t, -, ht⟩ := hl.texts_of_fail rfl
      rw [ht, List.length_append]
      rfl
  succeeded_iff := by
    rw [hl.succeeded_eq, Bool.and_eq_true, h.succeeded_iff, List.mem_append, not_or]
    cases v <;> simp

theorem makeAll_append (l : CheckLog) (cs cs' : List Check) : l.makeAll (cs ++ cs') =
    ((l.makeAll cs).1 ++ ((l.makeAll cs).2.makeAll cs').1, ((l.makeAll cs).2.makeAll cs').2) := by
  induction cs generalizing l with
  | nil => rfl
  | cons c cs ih => simp only [List.cons_append, makeAll, ih]

theorem tallies_makeAll (h : l.Tallies vs) (cs : List Check) :
    (l.makeAll cs).2.Tallies (vs ++ (l.makeAll cs).1) := by
  induction cs generalizing l vs with
  | nil => rwa [makeAll, List.append_nil]
  | cons c cs ih =>
    have hrest := ih (h.concat (l.extends_make c))
    rwa [List.append_assoc] at hrest

/-- The answers are those of what the checks find, whatever is in the log. -/
theorem answers_makeAll (l : CheckLog) (cs : List Check) :
    (l.makeAll cs).1 = cs.map fun c => c.finding.isNone := by
  induction cs generalizing l with
  | nil => rfl
  | cons c cs ih =>
    have hhead : (l.make c).1 = c.finding.isNone := by
      rw [make_eq]
      cases c.finding <;> rfl
    simp only [makeAll, List.map_cons, ih, hhead]

theorem Extends.texts_prefix (h : l.Extends v l') : l.texts <+: l'.texts := by
  cases v with
  | true => exact h.texts_of_pass rfl ▸ List.prefix_refl _
  | false =>
    obtain ⟨t, -, ht⟩ := h.texts_of_fail rfl
    exact ht ▸ List.prefix_append _ _

/-- **A run keeps the texts that are there**, and its verdict is no better than the one before. -/
theorem makeAll_keeps (l : CheckLog) (cs : List Check) : l.texts <+: (l.makeAll cs).2.texts ∧
    ((l.makeAll cs).2.succeeded = true → l.succeeded = true) := by
  induction cs generalizing l with
  | nil => exact ⟨List.prefix_refl _, id⟩
  | cons c cs ih =>
    have hstep := l.extends_make c
    obtain ⟨htexts, hverdict⟩ := ih (l.make c).2
    refine ⟨hstep.texts_prefix.trans htexts, fun h => ?_⟩
    have := hverdict h
    rw [hstep.succeeded_eq, Bool.and_eq_true] at this
    exact this.1

theorem mem_closing (h : l.succeeded = true ↔ l.texts = []) {t : String} (ht : t ∈ l.texts) :
    "  " ++ t ∈ l.closing := by
  have hfailed : ¬ l.succeeded = true := fun hs => List.ne_nil_of_mem ht (h.mp hs)
  unfold closing
  rw [if_neg hfailed]
  exact List.mem_append_left _ (List.mem_cons_of_mem _ (List.mem_map_of_mem ht))

/-- **The verdict of a run counts its failures.** After any checks from the start of a log the
number of checks is that of the answers, the run is a success exactly if there is no text of a
failure, and that means that every check has passed; closing it answers this verdict and shows every
text. One more check is counted, adds nothing if it passes and one text with its number behind the
others if it fails. However the run goes on, the texts stay and a run that has failed does not
succeed again. -/
theorem verdict_counts_failures (name : String) (mode : CheckMode) (cs : List Check) :
    let run := (start name mode).makeAll cs
    run.1 = cs.map (fun c => c.finding.isNone) ∧ run.2.index = cs.length ∧
    (run.2.succeeded = true ↔ run.2.texts = []) ∧
    (run.2.texts = [] ↔ ∀ v ∈ run.1, v = true) ∧
    (run.2.close.1 = run.2.succeeded ∧ ∀ t ∈ run.2.texts, "  " ++ t ∈ run.2.close.2) ∧
    (∀ c, (start name mode).makeAll (cs ++ [c]) =
        (run.1 ++ [(run.2.make c).1], (run.2.make c).2) ∧
      run.2.Extends (run.2.make c).1 (run.2.make c).2) ∧
    ∀ cs', run.2.texts <+: (run.2.makeAll cs').2.texts ∧
      (run.2.succeeded = false → (run.2.makeAll cs').2.succeeded = false) := by
  intro run
  have htallies : run.2.Tallies run.1 := tallies_makeAll (tallies_start name mode) cs
  have hanswers := answers_makeAll (start name mode) cs
  have htexts : run.2.texts = [] ↔ false ∉ run.1 := by
    rw [← List.length_eq_zero_iff, htallies.length_texts, List.count_eq_zero]
  have hverdict := htallies.succeeded_iff.trans htexts.symm
  refine ⟨hanswers, ?_, hverdict, htexts.trans ?_, ⟨rfl, fun t => mem_closing hverdict⟩,
    fun c => ⟨makeAll_append _ cs [c], run.2.extends_make c⟩, fun cs' => ?_⟩
  · rw [htallies.index_eq, hanswers, List.length_map]
  · simp
  · obtain ⟨hkept, hkeeps⟩ := run.2.makeAll_keeps cs'
    exact ⟨hkept, fun h => by simpa [h] using mt hkeeps⟩

/-- A check that passes and one that fails. -/
example :
    let run := (start "suite" .compare).makeAll [.flag true true "first", .flag true false "second"]
    run.1 = [true, false] ∧ run.2.index = 2 ∧ run.2.close.1 = false ∧
      run.2.texts = ["Failure in suite_reg: second for index 2: expected true, got false"] := by
  decide

end CheckLog

end Bitplane
