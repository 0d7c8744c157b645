import Spex.MlsGroup
import Spex.Table

/-!
# The extensions of a group context

The suite, the flags and the hash of a configuration are carried by two extensions of
the context of a group. One crate writes an extension with its type and its length;
another strips these and puts the payload into the context, and parses it when it joins
a group. A payload parses to some values exactly if it is the one written for them.
-/
namespace Spex
open Fallible Cbor

/-- The errors of the MLS-rs integration that the modelled functions return. -/
inductive MlsRsError where
  | invalidExtension (reason : String)
  | validation (error : ValidationError)
  deriving DecidableEq, Repr

/-- `u16::from_be_bytes`. -/
def u16FromBe (high low : UInt8) : UInt16 := UInt16.ofNat (BigEndian.value [high, low])

/-- The extensions of a context: the payload of every type that is set. -/
abbrev ExtensionList := List (UInt16 × Bytes)

def stripExtensionData (raw : Bytes) (expectedType : UInt16) : Except MlsRsError Bytes :=
  match raw with
  | type₁ :: type₂ :: length₁ :: length₂ :: data =>
    if u16FromBe type₁ type₂ ≠ expectedType then
      .error (.invalidExtension "extension type mismatch")
    else if data.length ≠ (u16FromBe length₁ length₂).toNat then
      .error (.invalidExtension "extension length mismatch")
    else .ok data
  | _ => .error (.invalidExtension "extension payload is too short")

def buildGroupContextExtensions (config : GroupConfig) :
    Except (Fault MlsRsError) ExtensionList :=
  if 255 < config.cfgHash.length then
    .error (.returned (.invalidExtension "cfg_hash length exceeds 255 bytes"))
  else
    let protoExtension := extProtoSuiteBytes config.protoSuite.major config.protoSuite.minor
      config.protoSuite.ciphersuiteId config.flags
    match extCfgHashBytes config.cfgHashId config.cfgHash with
    | none => .error .panicked
    | some cfgExtension => do
      let protoData ← (stripExtensionData protoExtension extSpexProtoSuite).mapError .returned
      let cfgData ← (stripExtensionData cfgExtension extSpexCfgHash).mapError .returned
      return Table.insert (Table.insert [] extSpexProtoSuite protoData) extSpexCfgHash cfgData

def parseProtoSuiteExtension : Bytes → Except MlsRsError (ProtoSuite × UInt8)
  | [major₁, major₂, minor₁, minor₂, suite₁, suite₂, flags] =>
    .ok (⟨u16FromBe major₁ major₂, u16FromBe minor₁ minor₂, u16FromBe suite₁ suite₂⟩, flags)
  | _ => .error (.invalidExtension "proto suite extension length mismatch")

def parseCfgHashExtension : Bytes → Except MlsRsError (UInt16 × Bytes)
  | hashId₁ :: hashId₂ :: length :: cfgHash =>
    if cfgHash.length ≠ length.toNat then
      .error (.invalidExtension "cfg_hash extension length mismatch")
    else .ok (u16FromBe hashId₁ hashId₂, cfgHash)
  | _ => .error (.invalidExtension "cfg_hash extension is too short")

/-- The payloads of the two extensions. -/
def spexExtensions (extensions : ExtensionList) : Except MlsRsError (Bytes × Bytes) :=
  match Table.get extensions extSpexProtoSuite, Table.get extensions extSpexCfgHash with
  | none, _ => .error (.invalidExtension "missing proto suite extension")
  | some _, none => .error (.invalidExtension "missing cfg_hash extension")
  | some protoExt, some cfgExt => .ok (protoExt, cfgExt)

def groupConfigFromContext (extensions : ExtensionList) : Except MlsRsError GroupConfig := do
  let (protoExt, cfgExt) ← spexExtensions extensions
  let (protoSuite, flags) ← parseProtoSuiteExtension protoExt
  let (cfgHashId, cfgHash) ← parseCfgHashExtension cfgExt
  return ⟨protoSuite, flags, cfgHashId, cfgHash, none⟩

def validateGroupContextExtensions (extensions : ExtensionList) (config : GroupConfig) :
    Except MlsRsError Unit := do
  let (protoExt, cfgExt) ← spexExtensions extensions
  let (protoSuite, flags) ← parseProtoSuiteExtension protoExt
  require (protoSuite = config.protoSuite ∧ flags = config.flags)
    (.validation .protoSuiteMismatch)
  let (hashId, cfgHash) ← parseCfgHashExtension cfgExt
  require (hashId = config.cfgHashId ∧ cfgHash = config.cfgHash) (.validation .cfgHashMismatch)

section Words

@[simp] theorem u16Be_u16FromBe (high low : UInt8) : u16Be (u16FromBe high low) = [high, low] := by
  have hlt : BigEndian.value [high, low] < 65536 := by simpa using BigEndian.value_lt [high, low]
  rw [u16Be, u16FromBe, UInt16.toNat_ofNat_of_lt' hlt]
  exact BigEndian.write_value (by simp)

theorem exists_u16Be (word : UInt16) :
    ∃ high low, u16Be word = [high, low] ∧ u16FromBe high low = word := by
  have hlength : (u16Be word).length = 2 := BigEndian.length_write 2 _
  obtain ⟨high, low, hbytes⟩ := List.length_eq_two.mp hlength
  refine ⟨high, low, hbytes, ?_⟩
  have hlt : word.toNat < 256 ^ 2 := by simpa using word.toNat_lt
  rw [u16FromBe, ← hbytes, u16Be, BigEndian.value_write, Nat.mod_eq_of_lt hlt, UInt16.ofNat_toNat]

end Words

section Payloads
variable {data cfgHash : Bytes} {hashId : UInt16}

/-- The data that `ext_proto_suite_bytes` wraps. -/
def protoSuitePayload (protoSuite : ProtoSuite) (flags : UInt8) : Bytes :=
  u16Be protoSuite.major ++ u16Be protoSuite.minor ++ u16Be protoSuite.ciphersuiteId ++ [flags]

/-- The data that `ext_cfg_hash_bytes` wraps. -/
def cfgHashPayload (hashId : UInt16) (cfgHash : Bytes) : Bytes :=
  u16Be hashId ++ [UInt8.ofNat cfgHash.length] ++ cfgHash

/-- Stripping an extension of its own type gives the data it was made of. -/
theorem stripExtensionData_extension (type : UInt16) (h : data.length < 2 ^ 16) :
    stripExtensionData (extension type data) type = .ok data := by
  obtain ⟨type₁, type₂, htype, htype'⟩ := exists_u16Be type
  obtain ⟨length₁, length₂, hlength, hlength'⟩ := exists_u16Be (UInt16.ofNat data.length)
  rw [extension, htype, hlength]
  simp [stripExtensionData, htype', hlength', UInt16.toNat_ofNat_of_lt' h]

theorem stripExtensionData_protoSuite (protoSuite : ProtoSuite) (flags : UInt8) :
    stripExtensionData (extProtoSuiteBytes protoSuite.major protoSuite.minor
      protoSuite.ciphersuiteId flags) extSpexProtoSuite =
      .ok (protoSuitePayload protoSuite flags) :=
  stripExtensionData_extension _ (by simp [u16Be])

theorem extCfgHashBytes_eq_some {raw : Bytes} :
    extCfgHashBytes hashId cfgHash = some raw ↔
      cfgHash.length ≤ 255 ∧ raw = extension extSpexCfgHash (cfgHashPayload hashId cfgHash) := by
  unfold extCfgHashBytes
  split_ifs with hlength
  · simp [hlength, cfgHashPayload, eq_comm]
  · simp [hlength]

theorem stripExtensionData_cfgHash (h : cfgHash.length ≤ 255) :
    stripExtensionData (extension extSpexCfgHash (cfgHashPayload hashId cfgHash))
      extSpexCfgHash = .ok (cfgHashPayload hashId cfgHash) := by
  refine stripExtensionData_extension _ ?_
  simp only [cfgHashPayload, u16Be, List.length_append, BigEndian.length_write,
    List.length_singleton]
  omega

theorem parseProtoSuiteExtension_eq_ok {protoSuite : ProtoSuite} {flags : UInt8} :
    parseProtoSuiteExtension data = .ok (protoSuite, flags) ↔
      data = protoSuitePayload protoSuite flags := by
  constructor
  · intro h
    unfold parseProtoSuiteExtension at h
    split at h
    · simp only [Except.ok.injEq, Prod.mk.injEq] at h
      obtain ⟨rfl, rfl⟩ := h
      simp [protoSuitePayload]
    · simp at h
  · rintro rfl
    obtain ⟨major₁, major₂, hmajor, hmajor'⟩ := exists_u16Be protoSuite.major
    obtain ⟨minor₁, minor₂, hminor, hminor'⟩ := exists_u16Be protoSuite.minor
    obtain ⟨suite₁, suite₂, hsuite, hsuite'⟩ := exists_u16Be protoSuite.ciphersuiteId
    rw [protoSuitePayload, hmajor, hminor, hsuite]
    simp [parseProtoSuiteExtension, hmajor', hminor', hsuite']

theorem parseCfgHashExtension_eq_ok :
    parseCfgHashExtension data = .ok (hashId, cfgHash) ↔
      cfgHash.length ≤ 255 ∧ data = cfgHashPayload hashId cfgHash := by
  constructor
  · intro h
    unfold parseCfgHashExtension at h
    split at h
    · rename_i hashId₁ hashId₂ length hash
      split_ifs at h with hlength
      simp only [Except.ok.injEq, Prod.mk.injEq] at h
      obtain ⟨rfl, rfl⟩ := h
      rw [not_not] at hlength
      have hbyte := length.toNat_lt
      refine ⟨by omega, ?_⟩
      simp [cfgHashPayload, hlength]
    · simp at h
  · rintro ⟨hlength, rfl⟩
    obtain ⟨hashId₁, hashId₂, hid, hid'⟩ := exists_u16Be hashId
    have hbyte : (UInt8.ofNat cfgHash.length).toNat = cfgHash.length :=
      UInt8.toNat_ofNat_of_lt' (Nat.lt_succ_of_le hlength)
    rw [cfgHashPayload, hid]
    simp [parseCfgHashExtension, hid', hbyte]

end Payloads

section Contexts
variable {config : GroupConfig}

/-- The extensions of the context of a configuration. -/
def contextExtensions (config : GroupConfig) : ExtensionList :=
  [(extSpexProtoSuite, protoSuitePayload config.protoSuite config.flags),
    (extSpexCfgHash, cfgHashPayload config.cfgHashId config.cfgHash)]

theorem buildGroupContextExtensions_of_le (h : config.cfgHash.length ≤ 255) :
    buildGroupContextExtensions config = .ok (contextExtensions config) := by
  have hraw : extCfgHashBytes config.cfgHashId config.cfgHash =
      some (extension extSpexCfgHash (cfgHashPayload config.cfgHashId config.cfgHash)) :=
    extCfgHashBytes_eq_some.mpr ⟨h, rfl⟩
  unfold buildGroupContextExtensions
  rw [if_neg (not_lt.mpr h), hraw]
  dsimp only
  rw [stripExtensionData_protoSuite, stripExtensionData_cfgHash h]
  rfl

theorem spexExtensions_contextExtensions (config : GroupConfig) :
    spexExtensions (contextExtensions config) =
      .ok (protoSuitePayload config.protoSuite config.flags,
        cfgHashPayload config.cfgHashId config.cfgHash) := rfl

/-- A context is validated exactly if a group that joins it takes over the configuration. -/
theorem validateGroupContextExtensions_eq_ok {extensions : ExtensionList} :
    validateGroupContextExtensions extensions config = .ok () ↔
      groupConfigFromContext extensions = .ok { config with initialSecret := none } := by
  unfold validateGroupContextExtensions groupConfigFromContext
  rcases spexExtensions extensions with err | ⟨protoExt, cfgExt⟩
  · simp
  simp only [ok_bind]
  rcases parseProtoSuiteExtension protoExt with err | ⟨protoSuite, flags⟩
  · simp
  simp only [ok_bind, check_bind_eq_ok, require_eq_ok]
  rcases parseCfgHashExtension cfgExt with err | ⟨hashId, cfgHash⟩
  · simp
  simp only [ok_bind, require_eq_ok, pure_eq_ok, GroupConfig.mk.injEq, and_true]
  tauto

/-- A group that joins a context takes over the configuration it was built from. -/
theorem groupConfigFromContext_contextExtensions (h : config.cfgHash.length ≤ 255) :
    groupConfigFromContext (contextExtensions config) =
      .ok { config with initialSecret := none } := by
  have hproto : parseProtoSuiteExtension (protoSuitePayload config.protoSuite config.flags) =
      .ok (config.protoSuite, config.flags) := parseProtoSuiteExtension_eq_ok.mpr rfl
  have hcfg : parseCfgHashExtension (cfgHashPayload config.cfgHashId config.cfgHash) =
      .ok (config.cfgHashId, config.cfgHash) := parseCfgHashExtension_eq_ok.mpr ⟨h, rfl⟩
  rw [groupConfigFromContext, spexExtensions_contextExtensions, ok_bind]
  simp only [hproto, hcfg, ok_bind]
  rfl

end Contexts

/-- What is built for a configuration is parsed back, and a payload that is parsed is the
one the encoder gives for the parsed values, so no two payloads are parsed alike. -/
theorem mls_extensions_round_trip (config : GroupConfig) (h : config.cfgHash.length ≤ 255) :
    (∃ extensions protoData cfgData,
      buildGroupContextExtensions config = .ok extensions ∧
      Table.get extensions extSpexProtoSuite = some protoData ∧
      Table.get extensions extSpexCfgHash = some cfgData ∧
      parseProtoSuiteExtension protoData = .ok (config.protoSuite, config.flags) ∧
      parseCfgHashExtension cfgData = .ok (config.cfgHashId, config.cfgHash)) ∧
    (∀ data protoSuite flags, parseProtoSuiteExtension data = .ok (protoSuite, flags) →
      stripExtensionData (extProtoSuiteBytes protoSuite.major protoSuite.minor
        protoSuite.ciphersuiteId flags) extSpexProtoSuite = .ok data) ∧
    (∀ data hashId cfgHash, parseCfgHashExtension data = .ok (hashId, cfgHash) →
      ∃ raw, extCfgHashBytes hashId cfgHash = some raw ∧
        stripExtensionData raw extSpexCfgHash = .ok data) ∧
    (∀ data data' parsed, parseProtoSuiteExtension data = .ok parsed →
      parseProtoSuiteExtension data' = .ok parsed → data = data') ∧
    ∀ data data' parsed, parseCfgHashExtension data = .ok parsed →
      parseCfgHashExtension data' = .ok parsed → data = data' := by
  refine ⟨⟨contextExtensions config, _, _, buildGroupContextExtensions_of_le h, rfl, rfl,
    parseProtoSuiteExtension_eq_ok.mpr rfl, parseCfgHashExtension_eq_ok.mpr ⟨h, rfl⟩⟩,
    ?_, ?_, ?_, ?_⟩
  · intro data protoSuite flags hparse
    rw [parseProtoSuiteExtension_eq_ok.mp hparse]
    exact stripExtensionData_protoSuite protoSuite flags
  · intro data hashId cfgHash hparse
    obtain ⟨hlength, rfl⟩ := parseCfgHashExtension_eq_ok.mp hparse
    exact ⟨_, extCfgHashBytes_eq_some.mpr ⟨hlength, rfl⟩, stripExtensionData_cfgHash hlength⟩
  · intro data data' parsed hparse hparse'
    rw [parseProtoSuiteExtension_eq_ok.mp hparse, parseProtoSuiteExtension_eq_ok.mp hparse']
  · intro data data' parsed hparse hparse'
    rw [(parseCfgHashExtension_eq_ok.mp hparse).2, (parseCfgHashExtension_eq_ok.mp hparse').2]

/-- A configuration with a hash of two bytes. -/
theorem mls_extensions_round_trip_sample :
    ∃ extensions protoData cfgData,
      buildGroupContextExtensions ⟨⟨0, 1, 1⟩, 2, 1, [0xAB, 0xCD], none⟩ = .ok extensions ∧
      Table.get extensions extSpexProtoSuite = some protoData ∧
      Table.get extensions extSpexCfgHash = some cfgData ∧
      parseProtoSuiteExtension protoData = .ok (⟨0, 1, 1⟩, 2) ∧
      parseCfgHashExtension cfgData = .ok (1, [0xAB, 0xCD]) :=
  (mls_extensions_round_trip ⟨⟨0, 1, 1⟩, 2, 1, [0xAB, 0xCD], none⟩ (by decide)).1

end Spex
