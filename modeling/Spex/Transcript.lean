import Mathlib.Data.List.Chain
import Mathlib.Tactic

/-!
# Runs of a machine and their transcripts

A machine takes an input, answers with an outcome and moves to a state. The
transcript of a run lists, turn by turn, the state before, the input, the
outcome and the state after. The rules carry a fact about one turn to the whole
run: an invariant, a relation that only grows, a simulation by a second machine
that may fail, and a refinement of a second machine with the same outcomes.
-/
namespace Spex.Transcript

variable {σ ι ο τ ε : Type*}

structure Turn (σ ι ο : Type*) where
  before : σ
  input : ι
  outcome : ο
  after : σ

variable (step : σ → ι → ο × σ)

def transcript : σ → List ι → List (Turn σ ι ο)
  | _, [] => []
  | s, i :: inputs =>
    ⟨s, i, (step s i).1, (step s i).2⟩ :: transcript (step s i).2 inputs

/-- The state a run ends in. -/
def final (s : σ) (inputs : List ι) : σ := inputs.foldl (fun s i => (step s i).2) s

variable {step} {s : σ} {inputs : List ι} {r : Turn σ ι ο}

theorem transcript_nil : transcript step s [] = [] := rfl

theorem transcript_cons (i : ι) (inputs : List ι) : transcript step s (i :: inputs) =
    ⟨s, i, (step s i).1, (step s i).2⟩ :: transcript step (step s i).2 inputs := rfl

theorem final_nil : final step s [] = s := rfl

theorem final_cons (i : ι) (inputs : List ι) :
    final step s (i :: inputs) = final step (step s i).2 inputs := rfl

theorem transcript_append (inputs rest : List ι) : transcript step s (inputs ++ rest) =
    transcript step s inputs ++ transcript step (final step s inputs) rest := by
  induction inputs generalizing s with
  | nil => rfl
  | cons i inputs ih => simp [transcript_cons, final_cons, ih]

theorem final_append (inputs rest : List ι) :
    final step s (inputs ++ rest) = final step (final step s inputs) rest := List.foldl_append

theorem step_of_mem (hr : r ∈ transcript step s inputs) :
    step r.before r.input = (r.outcome, r.after) := by
  induction inputs generalizing s with
  | nil => simp [transcript] at hr
  | cons i inputs ih =>
    rw [transcript_cons, List.mem_cons] at hr
    rcases hr with rfl | hr
    · rfl
    · exact ih hr

theorem outcome_eq (hr : r ∈ transcript step s inputs) : r.outcome = (step r.before r.input).1 :=
  congrArg Prod.fst (step_of_mem hr).symm

theorem after_eq (hr : r ∈ transcript step s inputs) : r.after = (step r.before r.input).2 :=
  congrArg Prod.snd (step_of_mem hr).symm

theorem map_input (s : σ) (inputs : List ι) :
    (transcript step s inputs).map Turn.input = inputs := by
  induction inputs generalizing s with
  | nil => rfl
  | cons i inputs ih => rw [transcript_cons, List.map_cons, ih]

theorem input_mem (hr : r ∈ transcript step s inputs) : r.input ∈ inputs := by
  have hmem := List.mem_map_of_mem (f := Turn.input) hr
  rwa [map_input] at hmem

theorem pairwise_input {R : ι → ι → Prop} :
    ((transcript step s inputs).Pairwise fun r r' => R r.input r'.input) ↔ inputs.Pairwise R := by
  rw [← List.pairwise_map, map_input]

/-- The inputs before a turn lead to the state before it. -/
theorem split_of_mem (hr : r ∈ transcript step s inputs) :
    ∃ past rest, inputs = past ++ r.input :: rest ∧ r.before = final step s past := by
  induction inputs generalizing s with
  | nil => simp [transcript] at hr
  | cons i inputs ih =>
    rw [transcript_cons, List.mem_cons] at hr
    rcases hr with rfl | hr
    · exact ⟨[], inputs, rfl, rfl⟩
    · obtain ⟨past, rest, hinputs, hbefore⟩ := ih hr
      exact ⟨i :: past, rest, by rw [hinputs, List.cons_append], by rw [hbefore, final_cons]⟩

/-- What comes after a turn is the run from the state after it. -/
theorem run_of_mem (hr : r ∈ transcript step s inputs) :
    ∃ past rest, transcript step s inputs = past ++ r :: transcript step r.after rest ∧
      final step s inputs = final step r.after rest := by
  obtain ⟨past, rest, hinputs, hbefore⟩ := split_of_mem hr
  refine ⟨transcript step s past, rest, ?_, ?_⟩
  · rw [hinputs, transcript_append, transcript_cons, ← hbefore, step_of_mem hr]
  · rw [hinputs, final_append, final_cons, ← hbefore, step_of_mem hr]

/-- What holds at the start and survives every turn holds before every turn and
at the end. -/
theorem invariant (Inv : σ → Prop) (hs : Inv s)
    (hturn : ∀ r ∈ transcript step s inputs, Inv r.before → Inv r.after) :
    (∀ r ∈ transcript step s inputs, Inv r.before) ∧ Inv (final step s inputs) := by
  induction inputs generalizing s with
  | nil => exact ⟨by simp [transcript], hs⟩
  | cons i inputs ih =>
    rw [transcript_cons, List.forall_mem_cons] at hturn
    obtain ⟨hrest, hfinal⟩ := ih (hturn.1 hs) hturn.2
    rw [transcript_cons, List.forall_mem_cons]
    exact ⟨⟨hs, hrest⟩, hfinal⟩

/-- What holds of the empty history and survives every turn holds of the history
of a run and the state it ends in. -/
theorem history (P : List (Turn σ ι ο) → σ → Prop) (hs : P [] s)
    (hturn : ∀ past s i, P past s →
      P (past ++ [⟨s, i, (step s i).1, (step s i).2⟩]) (step s i).2) :
    P (transcript step s inputs) (final step s inputs) := by
  induction inputs using List.reverseRecOn with
  | nil => exact hs
  | append_singleton inputs i ih =>
    rw [transcript_append, final_append]
    exact hturn _ _ i ih

/-- A value that every turn changes as its update says, or leaves as it is, ends
as the updates of the run make it. -/
theorem value_final {α β : Type*} (value : σ → α) (update : σ → ι → Option β) (f : α → β → α)
    (hturn : ∀ r ∈ transcript step s inputs, value r.after =
      (update r.before r.input).elim (value r.before) (f (value r.before))) :
    value (final step s inputs) =
      ((transcript step s inputs).filterMap fun r => update r.before r.input).foldl f
        (value s) := by
  induction inputs generalizing s with
  | nil => rfl
  | cons i inputs ih =>
    rw [transcript_cons, List.forall_mem_cons] at hturn
    rw [transcript_cons, final_cons, ih hturn.2]
    have hfirst := hturn.1
    dsimp only at hfirst
    cases hupdate : update s i <;> simp [hupdate, hfirst]

/-- What a turn establishes and every turn keeps holds at the end. -/
theorem persists (Q : σ → Prop) (hturn : ∀ r ∈ transcript step s inputs, Q r.before → Q r.after)
    (hr : r ∈ transcript step s inputs) (hafter : Q r.after) : Q (final step s inputs) := by
  obtain ⟨past, rest, hrun, hfinal⟩ := run_of_mem hr
  rw [hfinal]
  refine (invariant Q hafter fun later hlater => hturn later ?_).2
  rw [hrun]
  exact List.mem_append_right _ (List.mem_cons_of_mem _ hlater)

/-- What happens only while `Q` fails, and makes `Q` hold for good, happens at most
once. -/
theorem countP_le_one (Q : σ → Prop) (p : Turn σ ι ο → Bool)
    (hturn : ∀ r ∈ transcript step s inputs, Q r.before → Q r.after)
    (hbefore : ∀ r ∈ transcript step s inputs, Q r.before → p r = false)
    (hafter : ∀ r ∈ transcript step s inputs, p r = true → Q r.after) :
    (transcript step s inputs).countP p ≤ 1 := by
  induction inputs generalizing s with
  | nil => simp [transcript]
  | cons i inputs ih =>
    rw [transcript_cons, List.forall_mem_cons] at hturn hbefore hafter
    rw [transcript_cons, List.countP_cons]
    split_ifs with hfirst
    · have hnone : (transcript step (step s i).2 inputs).countP p = 0 := by
        rw [List.countP_eq_zero]
        intro r hr
        have hquiet := hbefore.2 r hr ((invariant Q (hafter.1 hfirst) hturn.2).1 r hr)
        simp [hquiet]
      omega
    · exact ih hturn.2 hbefore.2 hafter.2

/-- A reflexive and transitive relation that every turn respects relates the
start to every state of the run. -/
theorem related_of_mem {R : σ → σ → Prop} (hrefl : ∀ s, R s s)
    (htrans : ∀ {a b c}, R a b → R b c → R a c)
    (hturn : ∀ r ∈ transcript step s inputs, R r.before r.after) :
    ∀ r ∈ transcript step s inputs, R s r.before := by
  refine (invariant (R s) (hrefl s) ?_).1
  intro r hr hbefore
  exact htrans hbefore (hturn r hr)

/-- It also relates the state after a turn to the states of all later turns. -/
theorem pairwise_related {R : σ → σ → Prop} (hrefl : ∀ s, R s s)
    (htrans : ∀ {a b c}, R a b → R b c → R a c)
    (hturn : ∀ r ∈ transcript step s inputs, R r.before r.after) :
    (transcript step s inputs).Pairwise fun r r' => R r.after r'.before := by
  induction inputs generalizing s with
  | nil => exact .nil
  | cons i inputs ih =>
    rw [transcript_cons, List.forall_mem_cons] at hturn
    rw [transcript_cons, List.pairwise_cons]
    exact ⟨related_of_mem hrefl htrans hturn.2, ih hturn.2⟩

/-- Each turn starts where the one before it ended. -/
theorem linked : (transcript step s inputs).IsChain fun r r' => r'.before = r.after := by
  induction inputs generalizing s with
  | nil => exact .nil
  | cons i inputs ih =>
    cases inputs with
    | nil => exact .singleton _
    | cons j inputs => exact .cons_cons rfl ih

/-- If every turn is matched by a successful turn of a second machine, so is the
run. -/
theorem simulation {R : σ → τ → Prop} (apply : τ → ι → Except ε τ) {g : τ} (hs : R s g)
    (hturn : ∀ r ∈ transcript step s inputs, ∀ g, R r.before g →
      ∃ g', apply g r.input = .ok g' ∧ R r.after g') :
    ∃ g', inputs.foldlM apply g = .ok g' ∧ R (final step s inputs) g' := by
  induction inputs generalizing s g with
  | nil => exact ⟨g, rfl, hs⟩
  | cons i inputs ih =>
    rw [transcript_cons, List.forall_mem_cons] at hturn
    obtain ⟨g₁, happly, hafter⟩ := hturn.1 g hs
    obtain ⟨g', hrun, hfinal⟩ := ih hafter hturn.2
    refine ⟨g', ?_, hfinal⟩
    rw [List.foldlM_cons, happly]
    exact hrun

/-- If every step is matched by a step of a second machine with one more input, the two
runs show the same outcomes. -/
theorem refinement {κ : Type*} {R : σ → τ → Prop} {apply : τ → ι × κ → ο × τ} {g : τ}
    (hs : R s g)
    (hstep : ∀ i ∈ inputs, ∀ s g, R s g →
      ∃ k, (apply g (i, k)).1 = (step s i).1 ∧ R (step s i).2 (apply g (i, k)).2) :
    ∃ ks : List κ, ks.length = inputs.length ∧
      (transcript step s inputs).map (fun r => (r.input, r.outcome)) =
        (transcript apply g (inputs.zip ks)).map (fun r => (r.input.1, r.outcome)) ∧
      R (final step s inputs) (final apply g (inputs.zip ks)) := by
  induction inputs generalizing s g with
  | nil => exact ⟨[], rfl, rfl, hs⟩
  | cons i inputs ih =>
    rw [List.forall_mem_cons] at hstep
    obtain ⟨k, houtcome, hnext⟩ := hstep.1 s g hs
    obtain ⟨ks, hlength, hrun, hfinal⟩ := ih hnext hstep.2
    refine ⟨k :: ks, by rw [List.length_cons, List.length_cons, hlength], ?_, hfinal⟩
    rw [List.zip_cons_cons, transcript_cons, transcript_cons, List.map_cons, List.map_cons, hrun,
      houtcome]

/-- A part of a run is a run of the inputs it took. -/
theorem split_of_map {β : Type*} {f : Turn σ ι ο → β} {past rest : List β} {e : β}
    (h : (transcript step s inputs).map f = past ++ e :: rest) :
    ∃ before i after, inputs = before ++ i :: after ∧ past = (transcript step s before).map f ∧
      e = f ⟨final step s before, i, (step (final step s before) i).1,
        (step (final step s before) i).2⟩ ∧
      rest = (transcript step (step (final step s before) i).2 after).map f := by
  induction inputs generalizing s past with
  | nil => simp [transcript] at h
  | cons i inputs ih =>
    rw [transcript_cons, List.map_cons] at h
    cases past with
    | nil =>
      obtain ⟨rfl, rfl⟩ := List.cons.inj h
      exact ⟨[], i, inputs, rfl, rfl, rfl, rfl⟩
    | cons first past =>
      obtain ⟨rfl, hrest⟩ := List.cons.inj h
      obtain ⟨before, j, after, rfl, rfl, he, hafter⟩ := ih hrest
      exact ⟨i :: before, j, after, rfl, rfl, he, hafter⟩

end Spex.Transcript
