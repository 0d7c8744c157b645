import Spex.GroupInvariant
import Spex.GroupMessages

/-!
# What the derivations of secrets hash

From its secret a group derives the secret of the next epoch, a secret for every
member, and a key and a nonce for every message. Each derivation hashes the group
secret followed by a text, without a length or a mark in between, so two
derivations hash the same bytes where a group secret or a member id happens to
spell out what the other one appends.
-/
namespace Spex
open Cbor

inductive Material where
  | key
  | nonce
  deriving DecidableEq, Repr

/-- The label at the end of the message metadata. -/
def Material.label : Material → Bytes
  | .key => keyLabel
  | .nonce => nonceLabel

inductive Derivation where
  | group (secret : Bytes) (epoch : UInt64)
  | member (secret : Bytes) (memberId : String)
  | message (secret : Bytes) (senderId : String) (messageId : UInt64) (material : Material)
  deriving DecidableEq, Repr

namespace Derivation

/-- The group secret that a derivation starts from. -/
def secret : Derivation → Bytes
  | group secret _ | member secret _ | message secret _ _ _ => secret

/-- What a derivation appends to the group secret. -/
def text : Derivation → Bytes
  | group _ epoch => u64Be epoch
  | member _ memberId => Value.utf8 memberId
  | message _ senderId messageId material =>
    Value.utf8 senderId ++ u64Be messageId ++ material.label

/-- The bytes that a derivation hashes. -/
def input (d : Derivation) : Bytes := d.secret ++ d.text

def digest (sha256 : Bytes → Bytes) (hashId : HashId) : Derivation → Bytes
  | group secret epoch => deriveGroupSecret sha256 hashId secret epoch
  | member secret memberId => deriveMemberSecret sha256 hashId secret memberId
  | message secret senderId messageId material =>
    deriveMessageMetadataHash sha256 hashId secret senderId messageId material.label

theorem digest_eq (sha256 : Bytes → Bytes) (hashId : HashId) (d : Derivation) :
    d.digest sha256 hashId = sha256 d.input := by
  cases d <;> simp [digest, input, secret, text, deriveGroupSecret, deriveMemberSecret,
    deriveMessageMetadataHash, hashBytes_eq]

end Derivation

namespace Group

/-- The derivations that a group makes: the secret of the next epoch, and those
for its members. -/
inductive Derives (group : Group) : Derivation → Prop
  | group : Derives group (.group group.secrets.groupSecret (group.epoch + 1))
  | member {memberId : String} (h : memberId ∈ group.members) :
    Derives group (.member group.secrets.groupSecret memberId)
  | message {senderId : String} (h : senderId ∈ group.members) (messageId : UInt64)
    (material : Material) :
    Derives group (.message group.secrets.groupSecret senderId messageId material)

/-- Different derivations of the groups hash different bytes. -/
def Separated (groups : Set Group) : Prop :=
  ∀ group ∈ groups, ∀ group' ∈ groups, ∀ d d', Derives group d → Derives group' d' → d ≠ d' →
    d.input ≠ d'.input

/-- How what one group appends to its secret can spell the bytes by which another
group's secret is longer, followed by what that group appends. -/
inductive Spells (group group' : Group) (rest : Bytes) : Prop
  | members {m m' : String} (hm : m ∈ group.members) (hm' : m' ∈ group'.members)
    (hlonger : rest ≠ []) (h : Value.utf8 m = rest ++ Value.utf8 m')
  | memberGroup {m : String} (hm : m ∈ group.members)
    (h : Value.utf8 m = rest ++ u64Be (group'.epoch + 1))
  | groupMember {m' : String} (hm' : m' ∈ group'.members)
    (h : u64Be (group.epoch + 1) = rest ++ Value.utf8 m')
  | memberMessage {m m' : String} (hm : m ∈ group.members) (hm' : m' ∈ group'.members)
    (messageId : UInt64) (material : Material)
    (h : Value.utf8 m = rest ++ (Value.utf8 m' ++ u64Be messageId ++ material.label))
  | messageMember {m m' : String} (hm : m ∈ group.members) (hm' : m' ∈ group'.members)
    (messageId : UInt64) (material : Material)
    (h : Value.utf8 m ++ u64Be messageId ++ material.label = rest ++ Value.utf8 m')
  | messageGroup {m : String} (hm : m ∈ group.members) (messageId : UInt64)
    (material : Material)
    (h : Value.utf8 m ++ u64Be messageId ++ material.label = rest ++ u64Be (group'.epoch + 1))

/-- Where a group's secret continues another's, nothing appended to the shorter
one spells the continuation and something appended to the longer one. -/
def Unspelled (groups : Set Group) : Prop :=
  ∀ group ∈ groups, ∀ group' ∈ groups, ∀ rest,
    group'.secrets.groupSecret = group.secrets.groupSecret ++ rest → ¬ Spells group group' rest

variable {groups : Set Group} {group group' : Group} {d d' : Derivation} {rest : Bytes}

theorem Derives.secret_eq (h : Derives group d) : d.secret = group.secrets.groupSecret := by
  cases h <;> rfl

/-- The last byte of the metadata tells a key from a nonce. -/
theorem material_eq {bytes bytes' : Bytes} {material material' : Material}
    (h : bytes ++ material.label = bytes' ++ material'.label) : material = material' := by
  have hlast : material.label.getLast? = material'.label.getLast? := by
    have hsome : ∀ material : Material, material.label.getLast?.isSome := by
      intro material
      cases material <;> rfl
    have hboth := congrArg List.getLast? h
    rwa [List.getLast?_append, List.getLast?_append, Option.or_of_isSome (hsome _),
      Option.or_of_isSome (hsome _)] at hboth
  cases material <;> cases material' <;> first | rfl | exact absurd hlast (by decide)

/-- Messages from one group and another hash the same bytes only where their
senders do. -/
theorem message_text_eq {m m' : String} {i i' : UInt64} {material material' : Material}
    (h : Value.utf8 m ++ u64Be i ++ material.label =
      rest ++ (Value.utf8 m' ++ u64Be i' ++ material'.label)) :
    Value.utf8 m = rest ++ Value.utf8 m' ∧ i = i' ∧ material = material' := by
  rw [← List.append_assoc, ← List.append_assoc] at h
  have hmaterial := material_eq h
  subst hmaterial
  obtain ⟨hsender, hid⟩ := List.append_inj' (List.append_cancel_right h) (by simp)
  exact ⟨hsender, u64Be_injective hid, rfl⟩

/-- Two derivations that hash the same bytes, the first from the shorter secret. -/
theorem spells_of_text (hd : Derives group d) (hd' : Derives group' d') (hne : d ≠ d')
    (hsecret : group'.secrets.groupSecret = group.secrets.groupSecret ++ rest)
    (htext : d.text = rest ++ d'.text) : Spells group group' rest := by
  have hmembers : ∀ {m m' : String}, Value.utf8 m = rest ++ Value.utf8 m' → rest = [] →
      group'.secrets.groupSecret = group.secrets.groupSecret ∧ m' = m := by
    rintro m m' h rfl
    exact ⟨by rw [hsecret, List.append_nil], utf8_injective h.symm⟩
  cases hd with
  | group =>
    cases hd' with
    | group =>
      have happend : [] ++ u64Be (group.epoch + 1) = rest ++ u64Be (group'.epoch + 1) := htext
      obtain ⟨hrest, hepoch⟩ := List.append_inj' happend (by simp)
      rw [← hrest, List.append_nil] at hsecret
      exact absurd (by rw [hsecret, u64Be_injective hepoch]) hne
    | member hm' => exact .groupMember hm' htext
    | message hm' messageId material =>
      have hlength := congrArg List.length htext
      have hlabel : 0 < material.label.length := by cases material <;> decide
      simp only [Derivation.text, List.length_append, length_u64Be] at hlength
      omega
  | member hm =>
    cases hd' with
    | group => exact .memberGroup hm htext
    | member hm' =>
      refine .members hm hm' (fun hrest => ?_) htext
      obtain ⟨hs, rfl⟩ := hmembers htext hrest
      exact hne (by rw [hs])
    | message hm' messageId material => exact .memberMessage hm hm' messageId material htext
  | message hm messageId material =>
    cases hd' with
    | group => exact .messageGroup hm messageId material htext
    | member hm' => exact .messageMember hm hm' messageId material htext
    | message hm' messageId' material' =>
      obtain ⟨hsender, rfl, rfl⟩ := message_text_eq htext
      refine .members hm hm' (fun hrest => ?_) hsender
      obtain ⟨hs, rfl⟩ := hmembers hsender hrest
      exact hne (by rw [hs])

theorem exists_derives_of_spells (h : Spells group group' rest)
    (hsecret : group'.secrets.groupSecret = group.secrets.groupSecret ++ rest) :
    ∃ d d', Derives group d ∧ Derives group' d' ∧ d ≠ d' ∧ d.text = rest ++ d'.text := by
  cases h with
  | members hm hm' hlonger h =>
    refine ⟨_, _, .member hm, .member hm', fun heq => hlonger ?_, h⟩
    obtain ⟨hs, -⟩ := Derivation.member.inj heq
    rw [hsecret] at hs
    exact List.self_eq_append_right.mp hs
  | memberGroup hm h => exact ⟨_, _, .member hm, .group, nofun, h⟩
  | groupMember hm' h => exact ⟨_, _, .group, .member hm', nofun, h⟩
  | memberMessage hm hm' messageId material h =>
    exact ⟨_, _, .member hm, .message hm' messageId material, nofun, h⟩
  | messageMember hm hm' messageId material h =>
    exact ⟨_, _, .message hm messageId material, .member hm', nofun, h⟩
  | messageGroup hm messageId material h =>
    exact ⟨_, _, .message hm messageId material, .group, nofun, h⟩

theorem separated_iff : Separated groups ↔ Unspelled groups := by
  constructor
  · intro hsep group hg group' hg' rest hsecret hspells
    obtain ⟨d, d', hd, hd', hne, htext⟩ := exists_derives_of_spells hspells hsecret
    refine hsep group hg group' hg' d d' hd hd' hne ?_
    rw [Derivation.input, Derivation.input, hd.secret_eq, hd'.secret_eq, hsecret, htext,
      List.append_assoc]
  · intro hun group hg group' hg' d d' hd hd' hne hinput
    rw [Derivation.input, Derivation.input, hd.secret_eq, hd'.secret_eq] at hinput
    rcases List.append_eq_append_iff.mp hinput with ⟨rest, hsecret, htext⟩ | ⟨rest, hsecret, htext⟩
    · exact hun group hg group' hg' rest hsecret (spells_of_text hd hd' hne hsecret htext)
    · exact hun group' hg' group hg rest hsecret (spells_of_text hd' hd hne.symm hsecret htext)

section Digests
variable (sha256 : Bytes → Bytes)

/-- The digest that the key of a message is taken from. -/
def keyDigest (group : Group) (senderId : String) (messageId : UInt64) : Bytes :=
  deriveMessageMetadataHash sha256 group.hashId group.secrets.groupSecret senderId messageId
    keyLabel

def messageKey (group : Group) (senderId : String) (messageId : UInt64) : Except MlsError Bytes :=
  deriveAeadKey sha256 group.hashId group.secrets.groupSecret senderId messageId

/-- No member's secret is a derived group secret or a message key, and no key is
of two messages. -/
structure Apart (groups : Set Group) : Prop where
  group : ∀ group ∈ groups, ∀ member ∈ distributeSecrets sha256 group, ∀ group' ∈ groups,
    member.secret ≠ deriveGroupSecret sha256 group'.hashId group'.secrets.groupSecret
      (group'.epoch + 1)
  key : ∀ group ∈ groups, ∀ member ∈ distributeSecrets sha256 group, ∀ group' ∈ groups,
    ∀ senderId ∈ group'.members, ∀ messageId key,
      (keyDigest sha256 group' senderId messageId).length = 32 →
      messageKey sha256 group' senderId messageId = .ok key → member.secret ≠ key
  keys : ∀ group ∈ groups, ∀ senderId ∈ group.members, ∀ messageId,
    ∀ group' ∈ groups, ∀ senderId' ∈ group'.members, ∀ messageId' key,
      (keyDigest sha256 group senderId messageId).length = 32 →
      (keyDigest sha256 group' senderId' messageId').length = 32 →
      messageKey sha256 group senderId messageId = .ok key →
      messageKey sha256 group' senderId' messageId' = .ok key →
      group.secrets.groupSecret = group'.secrets.groupSecret ∧ senderId = senderId' ∧
        messageId = messageId'

variable {sha256}

/-- A digest of 32 bytes is the key. -/
theorem messageKey_eq {senderId : String} {messageId : UInt64} {key : Bytes}
    (hlength : (keyDigest sha256 group senderId messageId).length = 32)
    (h : messageKey sha256 group senderId messageId = .ok key) :
    key = keyDigest sha256 group senderId messageId := by
  rw [messageKey, deriveAeadKey, ← keyDigest, firstBytes, if_pos hlength.ge] at h
  rw [← Except.ok.inj h]
  exact List.take_of_length_le hlength.le

theorem digest_ne (hinj : Function.Injective sha256) (h : Separated groups)
    (hg : group ∈ groups) (hg' : group' ∈ groups) (hd : Derives group d) (hd' : Derives group' d')
    (hne : d ≠ d') : d.digest sha256 group.hashId ≠ d'.digest sha256 group'.hashId := by
  rw [Derivation.digest_eq, Derivation.digest_eq]
  exact hinj.ne (h group hg group' hg' d d' hd hd' hne)

theorem Separated.apart (hinj : Function.Injective sha256) (h : Separated groups) :
    Apart sha256 groups where
  group group hg member hmember group' hg' := by
    obtain ⟨m, hm, rfl⟩ := List.mem_map.mp hmember
    exact digest_ne hinj h hg hg' (.member hm) .group nofun
  key group hg member hmember group' hg' senderId hs messageId key hlength hkey := by
    obtain ⟨m, hm, rfl⟩ := List.mem_map.mp hmember
    rw [messageKey_eq hlength hkey]
    exact digest_ne hinj h hg hg' (.member hm) (.message hs messageId .key) nofun
  keys group hg senderId hs messageId group' hg' senderId' hs' messageId' key hlength hlength'
      hkey hkey' := by
    by_contra hne
    refine digest_ne hinj h hg hg' (.message hs messageId .key) (.message hs' messageId' .key) ?_
      ((messageKey_eq hlength hkey).symm.trans (messageKey_eq hlength' hkey'))
    intro heq
    obtain ⟨hsecret, hsender, hid, -⟩ := Derivation.message.inj heq
    exact hne ⟨hsecret, hsender, hid⟩

end Digests

/-- Different derivations of the groups of a run hash different bytes exactly
when no text spells its way into a longer group secret. Then an injective hash
keeps the secrets of the members, the derived group secrets and the keys apart. -/
theorem derivations_separated_iff {sha256 : Bytes → Bytes} (hinj : Function.Injective sha256)
    (groups : Set Group) :
    (Separated groups ↔ Unspelled groups) ∧ (Separated groups → Apart sha256 groups) :=
  ⟨separated_iff, fun h => h.apart hinj⟩

/-- Group secrets of one length and member ids of less than 8 bytes spell nothing. -/
theorem unspelled_of_short (length : ℕ)
    (hsecrets : ∀ group ∈ groups, group.secrets.groupSecret.length = length)
    (hmembers : ∀ group ∈ groups, ∀ member ∈ group.members, (Value.utf8 member).length < 8) :
    Unspelled groups := by
  intro group hg group' hg' rest hsecret hspells
  have hlength := congrArg List.length hsecret
  rw [List.length_append, hsecrets group hg, hsecrets group' hg'] at hlength
  obtain rfl : rest = [] := List.length_eq_zero_iff.mp (by omega)
  have hmember := hmembers group hg
  have hmember' := hmembers group' hg'
  cases hspells with
  | members _ _ hlonger => exact hlonger rfl
  | memberGroup hm h =>
    have htext := congrArg List.length h
    have hshort := hmember _ hm
    simp at htext
    omega
  | groupMember hm' h =>
    have htext := congrArg List.length h
    have hshort := hmember' _ hm'
    simp at htext
    omega
  | memberMessage hm hm' messageId material h =>
    have htext := congrArg List.length h
    have hshort := hmember _ hm
    simp at htext
    omega
  | messageMember hm hm' messageId material h =>
    have htext := congrArg List.length h
    have hshort := hmember' _ hm'
    simp at htext
    omega
  | messageGroup hm messageId material h =>
    have htext := congrArg List.length h
    have hlabel : 0 < material.label.length := by cases material <;> decide
    simp at htext
    omega

section Sample
open Tabulated Fallible

theorem derivations_separated_sample :
    Separated {chainGroup 1 ["alice"], chainGroup 2 ["alice", "bob"]} ∧
      Apart (tabulated chainDigests) {chainGroup 1 ["alice"], chainGroup 2 ["alice", "bob"]} := by
  have hunspelled : Unspelled {chainGroup 1 ["alice"], chainGroup 2 ["alice", "bob"]} := by
    refine unspelled_of_short 32 ?_ ?_ <;> simp <;> decide
  have hinj : Function.Injective (tabulated chainDigests) := tabulated_injective (by decide)
  obtain ⟨hiff, hapart⟩ := derivations_separated_iff hinj
    {chainGroup 1 ["alice"], chainGroup 2 ["alice", "bob"]}
  exact ⟨hiff.mpr hunspelled, hapart (hiff.mpr hunspelled)⟩

/-- A member id of eight bytes that reads as the number 2. -/
def epochMember : String := "\x00\x00\x00\x00\x00\x00\x00\x02"

/-- A member with this id is given the group secret of epoch 2 at epoch 1. -/
theorem member_given_next_group_secret :
    Function.Injective (tabulated chainDigests) ∧
      Reached (tabulated chainDigests) 1 (chainGroup 1 [epochMember]) ∧
      ¬ Separated {chainGroup 1 [epochMember]} ∧
      distributeSecrets (tabulated chainDigests) (chainGroup 1 [epochMember]) =
        [⟨epochMember, chainSecrets.getD 2 []⟩] ∧
      settled (removeMember (tabulated chainDigests) (chainGroup 1 [epochMember]) epochMember) =
        .ok (chainGroup 2 []) ∧
      (chainGroup 2 []).secrets.groupSecret = chainSecrets.getD 2 [] := by
  refine ⟨tabulated_injective (by decide),
    .changed (.add epochMember) (.created create_chainGroup) rfl, ?_, rfl, rfl, rfl⟩
  intro hsep
  have hmember : epochMember ∈ (chainGroup 1 [epochMember]).members := by simp [chainGroup]
  exact hsep _ rfl _ rfl _ _ (.member hmember) .group nofun rfl

end Sample
end Group
end Spex
