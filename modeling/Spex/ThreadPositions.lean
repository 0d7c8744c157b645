import Mathlib.Data.Prod.Lex
import Spex.ThreadRuns

/-!
# Positions of envelopes

An envelope carries the epoch of the rebuilt group and the counter of the
thread. Commits move the stored epoch on by one, sending sets it to the number of
stored members, and the counter stops at the last 64-bit word. Positions move
forward exactly as long as no message is sent with fewer members than epochs, no
commit wraps the epoch, and no two messages follow each other at the last value
of the counter.
-/
namespace Spex
open Fallible Cbor Transcript

def Call.isSend : Call → Bool
  | .send .. => true
  | .commit _ => false

def Outcome.succeeded : Outcome → Bool
  | .failed _ => false
  | _ => true

/-- Epoch and sequence number, ordered lexicographically. -/
def Envelope.position (self : Envelope) : UInt32 ×ₗ UInt64 := toLex (self.epoch, self.seq)

/-- The additional data that a message of a run was encrypted with. -/
def turnAd (crypto : Crypto) (r : ThreadTurn) : Option Bytes :=
  match r.input, r.outcome with
  | .send identity _ _, .sent message =>
    (messageAd crypto identity r.after message.envelope.epoch message.envelope.seq).toOption
  | _, _ => none

/-- The stored epoch never decreases, the positions of the envelopes increase,
and no two messages share their additional data. -/
structure PositionsAdvance (crypto : Crypto) (turns : List ThreadTurn) : Prop where
  epochs : ∀ r ∈ turns, r.before.epoch ≤ r.after.epoch
  positions : turns.Pairwise fun r r' => ∀ message message', r.outcome = .sent message →
    r'.outcome = .sent message' → message.envelope.position < message'.envelope.position
  ads : turns.Pairwise fun r r' => r.outcome.isSent → r'.outcome.isSent →
    turnAd crypto r ≠ turnAd crypto r'

/-- A call that does not take the epoch of the thread back: a message is sent
with at least as many members as epochs, a commit is not made at the last epoch. -/
def Call.Advances (threadState : ThreadState) : Call → Prop
  | .send .. => threadState.epoch ≤ memberCount threadState
  | .commit _ => threadState.epoch ≠ maxU64

instance (threadState : ThreadState) (call : Call) : Decidable (call.Advances threadState) :=
  match call with
  | .send .. => inferInstanceAs (Decidable (threadState.epoch ≤ memberCount threadState))
  | .commit _ => inferInstanceAs (Decidable (threadState.epoch ≠ maxU64))

/-- Two sends of which the first uses up the last value of the counter. -/
def Exhausts (r r' : ThreadTurn) : Prop :=
  r.input.isSend ∧ r'.input.isSend ∧ r.before.nextSeq = maxU64

instance (r r' : ThreadTurn) : Decidable (Exhausts r r') :=
  inferInstanceAs (Decidable (r.input.isSend ∧ r'.input.isSend ∧ r.before.nextSeq = maxU64))

theorem Envelope.position_lt_iff {e e' : Envelope} : e.position < e'.position ↔
    e.epoch.toNat < e'.epoch.toNat ∨
      e.epoch.toNat = e'.epoch.toNat ∧ e.seq.toNat < e'.seq.toNat := by
  rw [position, position, Prod.Lex.toLex_lt_toLex, UInt32.lt_iff_toNat_lt, UInt64.lt_iff_toNat_lt,
    UInt32.toNat_inj]

section Turns
variable {crypto : Crypto} {threadState : ThreadState} {calls : List Call} {r r' : ThreadTurn}
  {message message' : ThreadMessage} {identity : IdentityState}

/-- What a turn that sends does. -/
structure Sends (crypto : Crypto) (r : ThreadTurn) (message : ThreadMessage) : Prop where
  call : r.input.isSend
  outcome : r.outcome = .sent message
  members : r.after.members = r.before.members
  epoch : r.after.epoch = memberCount r.before
  nextSeq : r.after.nextSeq = saturatingSucc r.before.nextSeq
  carriedEpoch : message.envelope.epoch.toNat = r.after.epoch.toNat
  carriedSeq : message.envelope.seq = r.before.nextSeq
  ad : ∃ threadId cfgHash sender : Bytes, threadId.length = 32 ∧ cfgHash.length = 32 ∧
    turnAd crypto r = some (buildAd threadId message.envelope.epoch cfgHash r.after.protoSuite
      message.envelope.seq sender)

/-- What a turn that commits does. -/
structure Commits (r : ThreadTurn) : Prop where
  outcome : r.outcome.isSent = false
  epoch : r.after.epoch = r.before.epoch + 1
  nextSeq : r.after.nextSeq = r.before.nextSeq

theorem turn_sends {plaintext nonce : Bytes} (hr : r ∈ threadRun crypto threadState calls)
    (hok : r.outcome.succeeded) (hinput : r.input = .send identity plaintext nonce) :
    ∃ message, Sends crypto r message := by
  have houtcome := outcome_eq hr
  have hafter := after_eq hr
  rw [hinput] at houtcome hafter
  change r.outcome = .ofResult .sent
    (encryptAndChunkMessage crypto identity r.before plaintext nonce).1 at houtcome
  change r.after = (encryptAndChunkMessage crypto identity r.before plaintext nonce).2 at hafter
  cases hresult : (encryptAndChunkMessage crypto identity r.before plaintext nonce).1 with
  | error fault =>
    rw [houtcome, hresult] at hok
    cases hok
  | ok message =>
    obtain ⟨group, hrebuild, hsmall, hstate, hseal⟩ := encrypt_eq_ok hresult
    obtain ⟨seed, hstored⟩ := stored_of_rebuild hrebuild
    have hreplays := rebuild_replays hrebuild hstored
    obtain ⟨hepoch, hseq, ad, had⟩ := seal_eq_ok hseal
    obtain ⟨threadId, cfgHash, sender, hthread, hcfg, rfl⟩ := messageAd_eq_ok had
    rw [hstate] at hafter
    rw [hresult] at houtcome
    exact ⟨message, {
      call := by rw [hinput]; rfl
      outcome := houtcome
      members := by rw [hafter]; rfl
      epoch := by rw [hafter]; exact hreplays.epoch
      nextSeq := by rw [hafter]; rfl
      carriedEpoch := by
        rw [hepoch, hafter, UInt64.toNat_toUInt32, Nat.mod_eq_of_lt hsmall]
        rfl
      carriedSeq := hseq
      ad := by
        refine ⟨threadId, cfgHash, sender, hthread, hcfg, ?_⟩
        rw [turnAd, hinput, houtcome]
        dsimp only [Outcome.ofResult]
        rw [hepoch, hseq, hafter, had]
        rfl }⟩

theorem turn_commits {commit : Commit} (hr : r ∈ threadRun crypto threadState calls)
    (hok : r.outcome.succeeded) (hinput : r.input = .commit commit) : Commits r := by
  have houtcome := outcome_eq hr
  have hafter := after_eq hr
  rw [hinput] at houtcome hafter
  change r.outcome = .ofResult .committed (applyThreadCommitWithEvents r.before commit).1
    at houtcome
  change r.after = (applyThreadCommitWithEvents r.before commit).2 at hafter
  by_cases hnext : commit.epoch = r.before.epoch + 1
  · obtain ⟨⟨events, hevents⟩, hstate⟩ := applyThreadCommit_of_next hnext
    rw [hevents] at houtcome
    rw [hstate] at hafter
    exact ⟨by rw [houtcome]; rfl, by rw [hafter]; exact hnext, by rw [hafter]⟩
  · obtain ⟨fault, hrefused⟩ := applyThreadCommit_of_not_next hnext
    rw [houtcome, hrefused] at hok
    cases hok

/-- A successful turn sends or commits. -/
theorem turn_cases (hr : r ∈ threadRun crypto threadState calls) (hok : r.outcome.succeeded) :
    (∃ message, Sends crypto r message) ∨ Commits r := by
  cases hinput : r.input with
  | send identity plaintext nonce => exact .inl (turn_sends hr hok hinput)
  | commit commit => exact .inr (turn_commits hr hok hinput)

theorem sends_of_isSend (hr : r ∈ threadRun crypto threadState calls) (hok : r.outcome.succeeded)
    (hsend : r.input.isSend) : ∃ message, Sends crypto r message := by
  cases hinput : r.input with
  | send identity plaintext nonce => exact turn_sends hr hok hinput
  | commit commit =>
    rw [hinput] at hsend
    cases hsend

theorem sends_of_isSent (hr : r ∈ threadRun crypto threadState calls) (hok : r.outcome.succeeded)
    (hsent : r.outcome.isSent) : ∃ message, Sends crypto r message := by
  rcases turn_cases hr hok with hsends | hcommits
  · exact hsends
  · rw [hcommits.outcome] at hsent
    cases hsent

theorem Sends.eq_of_outcome (h : Sends crypto r message) (h' : r.outcome = .sent message') :
    message = message' :=
  Outcome.sent.inj (h.outcome.symm.trans h')

theorem Sends.position_lt_iff (h : Sends crypto r message) (h' : Sends crypto r' message') :
    message.envelope.position < message'.envelope.position ↔
      r.after.epoch.toNat < r'.after.epoch.toNat ∨
        r.after.epoch.toNat = r'.after.epoch.toNat ∧
          r.before.nextSeq.toNat < r'.before.nextSeq.toNat := by
  rw [Envelope.position_lt_iff, h.carriedEpoch, h'.carriedEpoch, h.carriedSeq, h'.carriedSeq]

/-- Different positions have different additional data. -/
theorem Sends.turnAd_ne (h : Sends crypto r message) (h' : Sends crypto r' message')
    (hlt : message.envelope.position < message'.envelope.position) :
    turnAd crypto r ≠ turnAd crypto r' := by
  obtain ⟨threadId, cfgHash, sender, hthread, hcfg, had⟩ := h.ad
  obtain ⟨threadId', cfgHash', sender', hthread', hcfg', had'⟩ := h'.ad
  rw [had, had']
  intro hsame
  obtain ⟨hepoch, hseq⟩ := position_of_buildAd_eq (by omega) (by omega) (Option.some.inj hsame)
  rw [Envelope.position_lt_iff, hepoch, hseq] at hlt
  omega

/-- Messages of one sender with one counter that leave one state behind have one
additional data. -/
theorem Sends.turnAd_eq (h : Sends crypto r message) (h' : Sends crypto r' message')
    {plaintext plaintext' nonce nonce' : Bytes} (hinput : r.input = .send identity plaintext nonce)
    (hinput' : r'.input = .send identity plaintext' nonce') (hafter : r.after = r'.after)
    (hseq : r.before.nextSeq = r'.before.nextSeq) : turnAd crypto r = turnAd crypto r' := by
  have hepoch : message.envelope.epoch = message'.envelope.epoch := by
    rw [← UInt32.toNat_inj, h.carriedEpoch, h'.carriedEpoch, hafter]
  rw [turnAd, turnAd, hinput, hinput', h.outcome, h'.outcome]
  dsimp only
  rw [hafter, hepoch, h.carriedSeq, h'.carriedSeq, hseq]

/-- A successful turn keeps the epoch from falling exactly when its call advances. -/
theorem epoch_le_iff (hr : r ∈ threadRun crypto threadState calls) (hok : r.outcome.succeeded) :
    r.before.epoch ≤ r.after.epoch ↔ r.input.Advances r.before := by
  cases hinput : r.input with
  | send identity plaintext nonce =>
    obtain ⟨message, hsends⟩ := turn_sends hr hok hinput
    rw [hsends.epoch]
    rfl
  | commit commit =>
    rw [(turn_commits hr hok hinput).epoch, Call.Advances, UInt64.le_iff_toNat_le]
    constructor
    · intro hle hmax
      rw [hmax] at hle
      exact absurd hle (by decide)
    · intro hne
      rw [toNat_add_one hne]
      omega

theorem nextSeq_le (hr : r ∈ threadRun crypto threadState calls) (hok : r.outcome.succeeded) :
    r.before.nextSeq ≤ r.after.nextSeq := by
  rw [UInt64.le_iff_toNat_le]
  rcases turn_cases hr hok with ⟨message, hsends⟩ | hcommits
  · have hlt := r.before.nextSeq.toNat_lt
    rw [hsends.nextSeq, toNat_saturatingSucc]
    omega
  · rw [hcommits.nextSeq]

/-- After the last value of the counter has been used, an epoch passes before
the next message. -/
theorem epoch_lt_of_exhausted {turns : List ThreadTurn}
    (hlinked : turns.IsChain fun r r' => r'.before = r.after)
    (hchain : turns.IsChain fun r r' => ¬Exhausts r r')
    (hlater : turns.Pairwise fun r r' => r.after.epoch ≤ r'.before.epoch)
    (hcommit : ∀ r ∈ turns, r.input.isSend = false → r.before.epoch < r.after.epoch) :
    turns.Pairwise fun r r' => Exhausts r r' → r.after.epoch < r'.before.epoch := by
  induction turns with
  | nil => exact .nil
  | cons r turns ih =>
    have hrest := ih hlinked.tail hchain.tail hlater.tail fun q hq =>
      hcommit q (List.mem_cons_of_mem r hq)
    refine List.pairwise_cons.mpr ⟨?_, hrest⟩
    intro r' hr' hexhausts
    cases turns with
    | nil => simp at hr'
    | cons q turns =>
      have hq : ¬Exhausts r q := hchain.rel
      have hnot : q.input.isSend = false := by
        by_contra hsend
        exact hq ⟨hexhausts.1, by simpa using hsend, hexhausts.2.2⟩
      rcases List.mem_cons.mp hr' with rfl | hr'
      · exact absurd hexhausts hq
      · have hstep := hcommit q (by simp) hnot
        rw [hlinked.rel] at hstep
        exact UInt64.lt_of_lt_of_le hstep ((List.pairwise_cons.mp hlater.tail).1 r' hr')

/-- The counter and the epoch of a state are not ahead of those of another. -/
def NotAhead (s s' : ThreadState) : Prop := s.epoch ≤ s'.epoch ∧ s.nextSeq ≤ s'.nextSeq

theorem pairwise_notAhead (hok : ∀ r ∈ threadRun crypto threadState calls, r.outcome.succeeded)
    (hepochs : ∀ r ∈ threadRun crypto threadState calls, r.before.epoch ≤ r.after.epoch) :
    (threadRun crypto threadState calls).Pairwise fun r r' => NotAhead r.after r'.before := by
  apply pairwise_related
  · exact fun s => ⟨UInt64.le_refl _, UInt64.le_refl _⟩
  · exact fun h h' => ⟨UInt64.le_trans h.1 h'.1, UInt64.le_trans h.2 h'.2⟩
  · exact fun r hr => ⟨hepochs r hr, nextSeq_le hr (hok r hr)⟩

theorem positions_of_advances
    (hok : ∀ r ∈ threadRun crypto threadState calls, r.outcome.succeeded)
    (hepochs : ∀ r ∈ threadRun crypto threadState calls, r.before.epoch ≤ r.after.epoch)
    (hchain : (threadRun crypto threadState calls).IsChain fun r r' => ¬Exhausts r r') :
    (threadRun crypto threadState calls).Pairwise fun r r' => ∀ message message',
      Sends crypto r message → Sends crypto r' message' →
        message.envelope.position < message'.envelope.position := by
  have hlater := pairwise_notAhead hok hepochs
  have hcommit : ∀ r ∈ threadRun crypto threadState calls, r.input.isSend = false →
      r.before.epoch < r.after.epoch := by
    intro r hr hnot
    rcases turn_cases hr (hok r hr) with ⟨message, hsends⟩ | hcommits
    · rw [hsends.call] at hnot
      cases hnot
    · have hle := hepochs r hr
      rw [hcommits.epoch] at hle ⊢
      exact UInt64.lt_of_le_of_ne hle (by simp)
  have hexhausted := epoch_lt_of_exhausted linked hchain (hlater.imp And.left) hcommit
  refine (hlater.and hexhausted).imp_of_mem ?_
  rintro r r' - hr' ⟨⟨hepoch, hseq⟩, hlast⟩ message message' hsends hsends'
  have hepoch' := hepochs r' hr'
  rw [hsends.position_lt_iff hsends']
  rw [UInt64.le_iff_toNat_le] at hepoch hseq hepoch'
  by_cases hmax : r.before.nextSeq = maxU64
  · have hlt := hlast ⟨hsends.call, hsends'.call, hmax⟩
    rw [UInt64.lt_iff_toNat_lt] at hlt
    omega
  · rw [hsends.nextSeq, saturatingSucc, if_neg hmax, toNat_add_one hmax] at hseq
    omega

theorem not_exhausts_of_positions (hsends : Sends crypto r message)
    (hsends' : Sends crypto r' message') (hlinked : r'.before = r.after)
    (hlt : message.envelope.position < message'.envelope.position) : ¬Exhausts r r' := by
  rintro ⟨-, -, hmax⟩
  have hepoch : r'.after.epoch = r.after.epoch := by
    rw [hsends'.epoch, hsends.epoch, memberCount, memberCount, hlinked, hsends.members]
  have hseq : r'.before.nextSeq = r.before.nextSeq := by
    rw [hlinked, hsends.nextSeq, saturatingSucc, if_pos hmax]
  rw [hsends.position_lt_iff hsends', hepoch, hseq] at hlt
  omega

/-- Along a run of successful calls from any state, positions advance exactly
when every call advances and no two sends follow each other at the last value of
the counter. -/
theorem positions_advance_iff (crypto : Crypto) (threadState : ThreadState) (calls : List Call)
    (hok : ∀ r ∈ threadRun crypto threadState calls, r.outcome.succeeded) :
    PositionsAdvance crypto (threadRun crypto threadState calls) ↔
      (∀ r ∈ threadRun crypto threadState calls, r.input.Advances r.before) ∧
        (threadRun crypto threadState calls).IsChain fun r r' => ¬Exhausts r r' := by
  constructor
  · intro h
    refine ⟨fun r hr => (epoch_le_iff hr (hok r hr)).mp (h.epochs r hr), ?_⟩
    rw [List.isChain_iff_forall_rel_of_append_cons_cons]
    intro r r' before after hsplit hexhausts
    have hr : r ∈ threadRun crypto threadState calls := by simp [hsplit]
    have hr' : r' ∈ threadRun crypto threadState calls := by simp [hsplit]
    obtain ⟨message, hsends⟩ := sends_of_isSend hr (hok r hr) hexhausts.1
    obtain ⟨message', hsends'⟩ := sends_of_isSend hr' (hok r' hr') hexhausts.2.1
    have hlinked := List.isChain_iff_forall_rel_of_append_cons_cons.mp linked hsplit
    have hlt := List.isChain_iff_forall_rel_of_append_cons_cons.mp h.positions.isChain hsplit
    exact not_exhausts_of_positions hsends hsends' hlinked
      (hlt message message' hsends.outcome hsends'.outcome) hexhausts
  · rintro ⟨hadvances, hchain⟩
    have hepochs : ∀ r ∈ threadRun crypto threadState calls, r.before.epoch ≤ r.after.epoch :=
      fun r hr => (epoch_le_iff hr (hok r hr)).mpr (hadvances r hr)
    have hpositions := positions_of_advances hok hepochs hchain
    refine ⟨hepochs, hpositions.imp_of_mem ?_, hpositions.imp_of_mem ?_⟩
    · intro r r' hr hr' hlt message message' hsent hsent'
      obtain ⟨sent, hsends⟩ := sends_of_isSent hr (hok r hr) (by rw [hsent]; rfl)
      obtain ⟨sent', hsends'⟩ := sends_of_isSent hr' (hok r' hr') (by rw [hsent']; rfl)
      rw [← hsends.eq_of_outcome hsent, ← hsends'.eq_of_outcome hsent']
      exact hlt sent sent' hsends hsends'
    · intro r r' hr hr' hlt hsent hsent'
      obtain ⟨message, hsends⟩ := sends_of_isSent hr (hok r hr) hsent
      obtain ⟨message', hsends'⟩ := sends_of_isSent hr' (hok r' hr') hsent'
      exact hsends.turnAd_ne hsends' (hlt message message' hsends hsends')

end Turns

section Sample

theorem Outcome.succeeded_of_isSent {outcome : Outcome} (h : outcome.isSent) :
    outcome.succeeded := by
  cases outcome with
  | sent message => rfl
  | committed events => rfl
  | failed fault => cases h

def sampleAddition : Commit := { epoch := 3, addedMembers := ["cc"] }

theorem perform_sampleAddition (nextSeq : UInt64) :
    (perform sampleCrypto (sampleAt ["bb", "aa"] nextSeq 2) (.commit sampleAddition)).2 =
      sampleAt ["bb", "aa", "cc"] nextSeq 3 :=
  perform_commit_of_next rfl

def advancingCalls : List Call := [sampleSend 0x33, .commit sampleAddition, sampleSend 0x33]

/-- The first message and the new member each move the thread on. -/
lemma advancingRun_eq : threadRun sampleCrypto (sampleAt ["bb", "aa"] 0 2) advancingCalls = [
    ⟨sampleAt ["bb", "aa"] 0 2, sampleSend 0x33,
      (perform sampleCrypto (sampleAt ["bb", "aa"] 0 2) (sampleSend 0x33)).1,
      sampleAt ["bb", "aa"] 1 2⟩,
    ⟨sampleAt ["bb", "aa"] 1 2, .commit sampleAddition,
      (perform sampleCrypto (sampleAt ["bb", "aa"] 1 2) (.commit sampleAddition)).1,
      sampleAt ["bb", "aa", "cc"] 1 3⟩,
    ⟨sampleAt ["bb", "aa", "cc"] 1 3, sampleSend 0x33,
      (perform sampleCrypto (sampleAt ["bb", "aa", "cc"] 1 3) (sampleSend 0x33)).1,
      (perform sampleCrypto (sampleAt ["bb", "aa", "cc"] 1 3) (sampleSend 0x33)).2⟩] := by
  have hafter := (perform_sampleSend ["bb", "aa"] (by decide) 0 2 0x33).2
  have hone : sampleAt ["bb", "aa"] (saturatingSucc 0) (UInt64.ofNat ["bb", "aa"].length) =
    sampleAt ["bb", "aa"] 1 2 := rfl
  rw [hone] at hafter
  rw [threadRun, advancingCalls, transcript_cons, transcript_cons, transcript_cons,
    transcript_nil, hafter, perform_sampleAddition]

/-- A message, a new member, and another message. -/
theorem positions_advance_sample :
    ∃ first addition second,
      threadRun sampleCrypto (sampleAt ["bb", "aa"] 0 2) advancingCalls =
        [first, addition, second] ∧
      first.outcome.isSent ∧ second.outcome.isSent ∧
      PositionsAdvance sampleCrypto
        (threadRun sampleCrypto (sampleAt ["bb", "aa"] 0 2) advancingCalls) := by
  have hfirst := (perform_sampleSend ["bb", "aa"] (by decide) 0 2 0x33).1
  have hsecond := (perform_sampleSend ["bb", "aa", "cc"] (by decide) 1 3 0x33).1
  refine ⟨_, _, _, advancingRun_eq, ?_, ?_, ?_⟩
  · dsimp only
    exact hfirst
  · dsimp only
    exact hsecond
  refine (positions_advance_iff sampleCrypto _ advancingCalls ?_).mpr ⟨?_, ?_⟩
  · rw [advancingRun_eq]
    simp only [List.forall_mem_cons]
    exact ⟨Outcome.succeeded_of_isSent hfirst, by decide, Outcome.succeeded_of_isSent hsecond,
      by simp⟩
  · rw [advancingRun_eq]
    simp only [List.forall_mem_cons]
    exact ⟨by decide, by decide, by decide, by simp⟩
  · rw [advancingRun_eq]
    exact .cons_cons (by decide) (.cons_cons (by decide) (.singleton _))

def stalledCalls : List Call := [.commit sampleRemoval, sampleSend 0x33, sampleSend 0x44]

/-- A message to the one member left, with the counter at its last value. -/
def stalledTurn (epoch : UInt64) (byte : UInt8) : ThreadTurn :=
  ⟨sampleAt ["aa"] maxU64 epoch, sampleSend byte,
    (perform sampleCrypto (sampleAt ["aa"] maxU64 epoch) (sampleSend byte)).1,
    sampleAt ["aa"] maxU64 1⟩

theorem stalledTurn_isSent (epoch : UInt64) (byte : UInt8) :
    (stalledTurn epoch byte).outcome.isSent := by
  rw [stalledTurn]
  dsimp only
  exact (perform_sampleSend ["aa"] (by decide) maxU64 epoch byte).1

theorem stalledRun_eq : threadRun sampleCrypto (sampleAt ["bb", "aa"] maxU64 2) stalledCalls =
    [⟨sampleAt ["bb", "aa"] maxU64 2, .commit sampleRemoval,
      (perform sampleCrypto (sampleAt ["bb", "aa"] maxU64 2) (.commit sampleRemoval)).1,
      sampleAt ["aa"] maxU64 3⟩, stalledTurn 3 0x33, stalledTurn 1 0x44] := by
  have hafter : ∀ epoch byte, (perform sampleCrypto (sampleAt ["aa"] maxU64 epoch)
      (sampleSend byte)).2 = sampleAt ["aa"] maxU64 1 :=
    fun epoch byte => (perform_sampleSend ["aa"] (by decide) maxU64 epoch byte).2
  rw [threadRun, stalledCalls, transcript_cons, transcript_cons, transcript_cons,
    transcript_nil, perform_sampleRemoval, hafter, hafter]
  rfl

/-- A removal takes the epoch from three back to one at the next message, and
with the counter at its last value the message after it has the same position and
the same additional data. -/
theorem removal_repeats_position :
    ∃ removal first second,
      threadRun sampleCrypto (sampleAt ["bb", "aa"] maxU64 2) stalledCalls =
        [removal, first, second] ∧
      removal.outcome.succeeded ∧ first.outcome.isSent ∧ second.outcome.isSent ∧
      first.before.epoch = 3 ∧ first.after.epoch = 1 ∧
      turnAd sampleCrypto first = turnAd sampleCrypto second ∧
      ¬PositionsAdvance sampleCrypto
        (threadRun sampleCrypto (sampleAt ["bb", "aa"] maxU64 2) stalledCalls) := by
  have hfirst : stalledTurn 3 0x33 ∈
      threadRun sampleCrypto (sampleAt ["bb", "aa"] maxU64 2) stalledCalls := by
    simp [stalledRun_eq]
  have hsecond : stalledTurn 1 0x44 ∈
      threadRun sampleCrypto (sampleAt ["bb", "aa"] maxU64 2) stalledCalls := by
    simp [stalledRun_eq]
  have hsucceeded : ∀ epoch byte, (stalledTurn epoch byte).outcome.succeeded :=
    fun epoch byte => Outcome.succeeded_of_isSent (stalledTurn_isSent epoch byte)
  obtain ⟨message, hsends⟩ := turn_sends hfirst (hsucceeded 3 0x33) rfl
  obtain ⟨message', hsends'⟩ := turn_sends hsecond (hsucceeded 1 0x44) rfl
  refine ⟨_, _, _, stalledRun_eq, by decide, stalledTurn_isSent 3 0x33, stalledTurn_isSent 1 0x44,
    rfl, rfl, hsends.turnAd_eq hsends' rfl rfl rfl rfl, ?_⟩
  intro hadvance
  exact absurd (hadvance.epochs _ hfirst) (by decide)

end Sample
end Spex
