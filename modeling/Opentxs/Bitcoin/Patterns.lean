import Opentxs.Bitcoin.BitcoinScript

/-! What kind of script some elements are, what can be asked of a script, and the scripts that are built on
purpose. An accessor reads elements at positions that the kind of the script is meant to vouch for. -/

namespace Opentxs.Bitcoin.BitcoinScript
open Library.Endian

inductive Pattern
  | custom
  | coinbase
  | nullData
  | payToMultisig
  | payToPubkey
  | payToPubkeyHash
  | payToScriptHash
  | payToWitnessPubkeyHash
  | payToWitnessScriptHash
  | payToTaproot
  | input
  | empty
  | malformed
  deriving DecidableEq, Repr

namespace OP

def PUSHDATA_20 : OP := ⟨20⟩
def SIXTEEN : OP := ⟨96⟩

end OP

/-- What is no number is zero. -/
def toNumber (opcode : OP) : Nat :=
  if OP.ONE.value ≤ opcode.value ∧ opcode.value ≤ OP.SIXTEEN.value then opcode.value.toNat - OP.ONE.value.toNat + 1 else 0

def isHash160 (element : ScriptElement) : Bool :=
  element.isDataPush ∧ element.data.map List.length = some 20

def isPublicKey (element : ScriptElement) : Bool :=
  element.isDataPush ∧ (element.data.map List.length = some 33 ∨ element.data.map List.length = some 65)

def firstOpcode (script : List ScriptElement) : Option OP := script.head?.map ScriptElement.opcode

def lastOpcode (script : List ScriptElement) : Option OP := script.getLast?.map ScriptElement.opcode

/-! ## Candidates -/

def potentialPubkeyHash (script : List ScriptElement) : Bool := lastOpcode script = some OP.CHECKSIG ∧ script.length = 5

def potentialScriptHash (script : List ScriptElement) : Bool :=
  firstOpcode script = some OP.HASH160 ∧ lastOpcode script = some OP.EQUAL ∧ script.length = 3

def potentialData (script : List ScriptElement) : Bool := firstOpcode script = some OP.RETURN ∧ 2 ≤ script.length

def isVersion (opcode : OP) : Bool := opcode = OP.ZERO ∨ 0 < toNumber opcode

def potentialSegwit (script : List ScriptElement) : Bool :=
  match script with
  | [version, element] =>
    if !isVersion version.opcode then false
    else match element.data with
      | none => false
      | some program => 1 < program.length ∧ program.length < 41
  | _ => false

def potentialPubkey (script : List ScriptElement) : Bool := lastOpcode script = some OP.CHECKSIG ∧ script.length = 2

def potentialMultisig (script : List ScriptElement) : Bool := lastOpcode script = some OP.CHECKMULTISIG ∧ 4 ≤ script.length

/-! ## Evaluation -/

def evaluatePubkeyHash (script : List ScriptElement) : Pattern :=
  match script with
  | dup :: hash160 :: hash :: equalVerify :: _ =>
    if dup.opcode ≠ OP.DUP then .custom
    else if hash160.opcode ≠ OP.HASH160 then .custom
    else if !isHash160 hash then .custom
    else if equalVerify.opcode ≠ OP.EQUALVERIFY then .custom
    else .payToPubkeyHash
  | _ => .custom

def evaluateScriptHash (script : List ScriptElement) : Pattern :=
  match script with
  | hash160 :: hash :: _ =>
    if hash160.opcode ≠ OP.HASH160 then .custom
    else if !isHash160 hash then .custom
    else if hash.opcode ≠ OP.PUSHDATA_20 then .custom
    else .payToScriptHash
  | _ => .custom

def evaluateData (script : List ScriptElement) : Pattern :=
  if script.tail.all ScriptElement.isDataPush then .nullData else .custom

/-- Only the length of the program counts. -/
def evaluateSegwit (script : List ScriptElement) : Pattern :=
  match script with
  | [version, element] =>
    match toNumber version.opcode, element.data.map List.length with
    | 0, some 20 => .payToWitnessPubkeyHash
    | 0, some 32 => .payToWitnessScriptHash
    | 1, some 32 => .payToTaproot
    | _, _ => .custom
  | _ => .custom

def evaluatePubkey (script : List ScriptElement) : Pattern :=
  match script with
  | key :: _ => if isPublicKey key then .payToPubkey else .custom
  | _ => .custom

/-- From the last element to the first. -/
def evaluateMultisig (script : List ScriptElement) : Pattern :=
  match script.reverse with
  | _ :: last :: before =>
    let n := toNumber last.opcode
    if n = 0 then .malformed
    else if script.length < 3 + n then .malformed
    else if !(before.take n).all isPublicKey then .malformed
    else
      match before.drop n with
      | first :: _ =>
        let m := toNumber first.opcode
        if m = 0 ∨ n < m then .malformed
        else if 3 + n < script.length then .custom
        else .payToMultisig
      | [] => .malformed
  | _ => .malformed

def getType (role : Position) (script : List ScriptElement) : Pattern :=
  if script = [] then .empty
  else match role with
    | .coinbase => .coinbase
    | .input => .input
    | .redeem | .output =>
      if potentialPubkeyHash script then evaluatePubkeyHash script
      else if potentialScriptHash script then evaluateScriptHash script
      else if potentialData script then evaluateData script
      else if potentialSegwit script then evaluateSegwit script
      else if potentialPubkey script then evaluatePubkey script
      else if potentialMultisig script then evaluateMultisig script
      else .custom

def Script.type (script : Script) : Pattern := getType script.role script.elements

/-! ## What each evaluation can say -/

theorem evaluatePubkeyHash_cases (script : List ScriptElement) :
    evaluatePubkeyHash script = .custom ∨ evaluatePubkeyHash script = .payToPubkeyHash := by
  unfold evaluatePubkeyHash
  repeat' split
  all_goals first | exact .inl rfl | exact .inr rfl

theorem evaluateScriptHash_cases (script : List ScriptElement) :
    evaluateScriptHash script = .custom ∨ evaluateScriptHash script = .payToScriptHash := by
  unfold evaluateScriptHash
  repeat' split
  all_goals first | exact .inl rfl | exact .inr rfl

theorem evaluateData_cases (script : List ScriptElement) : evaluateData script = .nullData ∨ evaluateData script = .custom := by
  unfold evaluateData
  split
  · exact .inl rfl
  · exact .inr rfl

theorem evaluatePubkey_cases (script : List ScriptElement) :
    evaluatePubkey script = .payToPubkey ∨ evaluatePubkey script = .custom := by
  unfold evaluatePubkey
  repeat' split
  all_goals first | exact .inl rfl | exact .inr rfl

theorem evaluateMultisig_cases (script : List ScriptElement) :
    evaluateMultisig script = .malformed ∨ evaluateMultisig script = .custom ∨ evaluateMultisig script = .payToMultisig := by
  unfold evaluateMultisig
  dsimp only
  repeat' split
  all_goals first | exact .inl rfl | exact .inr (.inl rfl) | exact .inr (.inr rfl)

theorem evaluateSegwit_cases (script : List ScriptElement) :
    evaluateSegwit script = .custom ∨ evaluateSegwit script = .payToWitnessPubkeyHash ∨
      evaluateSegwit script = .payToWitnessScriptHash ∨ evaluateSegwit script = .payToTaproot := by
  unfold evaluateSegwit
  repeat' split
  all_goals first | exact .inl rfl | exact .inr (.inl rfl) | exact .inr (.inr (.inl rfl)) | exact .inr (.inr (.inr rfl))

/-- Which evaluation has the last word. -/
theorem getType_cases (role : Position) (script : List ScriptElement) :
    getType role script ∈ [Pattern.empty, .coinbase, .input, .custom] ∨
    potentialPubkeyHash script ∧ getType role script = evaluatePubkeyHash script ∨
    potentialScriptHash script ∧ getType role script = evaluateScriptHash script ∨
    potentialData script ∧ getType role script = evaluateData script ∨
    potentialSegwit script ∧ getType role script = evaluateSegwit script ∨
    potentialPubkey script ∧ getType role script = evaluatePubkey script ∨
    potentialMultisig script ∧ getType role script = evaluateMultisig script := by
  have evaluated : getType .output script ∈ [Pattern.empty, .coinbase, .input, .custom] ∨
      potentialPubkeyHash script ∧ getType .output script = evaluatePubkeyHash script ∨
      potentialScriptHash script ∧ getType .output script = evaluateScriptHash script ∨
      potentialData script ∧ getType .output script = evaluateData script ∨
      potentialSegwit script ∧ getType .output script = evaluateSegwit script ∨
      potentialPubkey script ∧ getType .output script = evaluatePubkey script ∨
      potentialMultisig script ∧ getType .output script = evaluateMultisig script := by
    unfold getType
    split
    · exact .inl List.mem_cons_self
    · dsimp only
      split
      · next potential => exact .inr (.inl ⟨potential, rfl⟩)
      · split
        · next potential => exact .inr (.inr (.inl ⟨potential, rfl⟩))
        · split
          · next potential => exact .inr (.inr (.inr (.inl ⟨potential, rfl⟩)))
          · split
            · next potential => exact .inr (.inr (.inr (.inr (.inl ⟨potential, rfl⟩))))
            · split
              · next potential => exact .inr (.inr (.inr (.inr (.inr (.inl ⟨potential, rfl⟩)))))
              · split
                · next potential => exact .inr (.inr (.inr (.inr (.inr (.inr ⟨potential, rfl⟩)))))
                · exact .inl (by decide)
  cases role with
  | coinbase =>
    unfold getType
    split
    · exact .inl List.mem_cons_self
    · exact .inl (List.mem_cons_of_mem _ (by decide : Pattern.coinbase ∈ [Pattern.coinbase, .input, .custom]))
  | input =>
    unfold getType
    split
    · exact .inl List.mem_cons_self
    · exact .inl (List.mem_cons_of_mem _ (by decide : Pattern.input ∈ [Pattern.coinbase, .input, .custom]))
  | output => exact evaluated
  | redeem => exact evaluated

/-- The evaluation that a kind comes from, for those kinds that only one can say. -/
def Evaluates (script : List ScriptElement) : Pattern → Prop
  | .payToPubkeyHash => evaluatePubkeyHash script = .payToPubkeyHash ∧ potentialPubkeyHash script = true
  | .payToScriptHash => evaluateScriptHash script = .payToScriptHash ∧ potentialScriptHash script = true
  | .nullData => evaluateData script = .nullData ∧ potentialData script = true
  | .payToWitnessPubkeyHash => evaluateSegwit script = .payToWitnessPubkeyHash ∧ potentialSegwit script = true
  | .payToWitnessScriptHash => evaluateSegwit script = .payToWitnessScriptHash ∧ potentialSegwit script = true
  | .payToTaproot => evaluateSegwit script = .payToTaproot ∧ potentialSegwit script = true
  | .payToPubkey => evaluatePubkey script = .payToPubkey ∧ potentialPubkey script = true
  | .payToMultisig => evaluateMultisig script = .payToMultisig ∧ potentialMultisig script = true
  | .custom | .coinbase | .input | .empty | .malformed => True

theorem getType_evaluates (role : Position) (script : List ScriptElement) : Evaluates script (getType role script) := by
  rcases getType_cases role script with plain | ⟨potential, same⟩ | ⟨potential, same⟩ | ⟨potential, same⟩ | ⟨potential, same⟩ |
      ⟨potential, same⟩ | ⟨potential, same⟩
  · generalize getType role script = pattern at plain
    have kinds : pattern = .empty ∨ pattern = .coinbase ∨ pattern = .input ∨ pattern = .custom := by simpa using plain
    rcases kinds with rfl | rfl | rfl | rfl <;> trivial
  · rw [same]
    rcases evaluatePubkeyHash_cases script with other | said
    · exact other ▸ trivial
    · exact said ▸ ⟨said, potential⟩
  · rw [same]
    rcases evaluateScriptHash_cases script with other | said
    · exact other ▸ trivial
    · exact said ▸ ⟨said, potential⟩
  · rw [same]
    rcases evaluateData_cases script with said | other
    · exact said ▸ ⟨said, potential⟩
    · exact other ▸ trivial
  · rw [same]
    rcases evaluateSegwit_cases script with other | said | said | said
    · exact other ▸ trivial
    all_goals exact said ▸ ⟨said, potential⟩
  · rw [same]
    rcases evaluatePubkey_cases script with said | other
    · exact said ▸ ⟨said, potential⟩
    · exact other ▸ trivial
  · rw [same]
    rcases evaluateMultisig_cases script with other | other | said
    · exact other ▸ trivial
    · exact other ▸ trivial
    · exact said ▸ ⟨said, potential⟩

/-! ## Accessors -/

/-- What is thrown where nothing may be thrown, and ends the process. -/
inductive Exception
  | outOfRange
  | badOptionalAccess
  deriving DecidableEq, Repr

namespace Script

variable (script : Script)

def getOpcode (position : Nat) : Except Exception OP :=
  match script.elements[position]? with
  | some element => .ok element.opcode
  | none => .error .outOfRange

def getData (position : Nat) : Except Exception Bytes :=
  match script.elements[position]? with
  | some element =>
    match element.data with
    | some data => .ok data
    | none => .error .outOfRange
  | none => .error .outOfRange

def m : Except Exception (Option Nat) :=
  if script.type ≠ .payToMultisig then .ok none else do
    let opcode ← script.getOpcode 0
    .ok (some (toNumber opcode))

def n : Except Exception (Option Nat) :=
  if script.type ≠ .payToMultisig then .ok none else do
    let opcode ← script.getOpcode (script.elements.length - 2)
    .ok (some (toNumber opcode))

def multisigPubkey (position : Nat) : Except Exception (Option Bytes) :=
  if script.type ≠ .payToMultisig then .ok none else do
    let index := position + 1
    match ← script.n with
    | some n => if n < index then .ok none else some <$> script.getData index
    | none => .ok none

def pubkey : Except Exception (Option Bytes) :=
  match script.type with
  | .payToPubkey => some <$> script.getData 0
  | .payToTaproot => some <$> script.getData 1
  | _ => .ok none

def pubkeyHash : Except Exception (Option Bytes) :=
  match script.type with
  | .payToPubkeyHash => some <$> script.getData 2
  | .payToWitnessPubkeyHash => some <$> script.getData 1
  | _ => .ok none

def scriptHash : Except Exception (Option Bytes) :=
  match script.type with
  | .payToScriptHash | .payToWitnessScriptHash => some <$> script.getData 1
  | _ => .ok none

/-- The index may be the number of elements. -/
def value (position : Nat) : Except Exception (Option Bytes) :=
  if script.type ≠ .nullData then .ok none
  else
    let index := position + 1
    if script.elements.length < index then .ok none else some <$> script.getData index

end Script

def ScriptElement.value (element : ScriptElement) : Except Exception Bytes :=
  match element.data with
  | some data => .ok data
  | none => .error .badOptionalAccess

namespace Script

variable (script : Script)

def readPushes : List ScriptElement → Except Exception (List Bytes)
  | [] => .ok []
  | element :: elements =>
    if element.isDataPush then do
      let data ← element.value
      let rest ← readPushes elements
      .ok (pushElements data ++ rest)
    else readPushes elements

/-- The blank script is none. -/
def readRedeemScript : Except Exception (Option Script) :=
  if script.role ≠ .input then .ok none
  else match script.elements.getLast? with
    | none => .ok none
    | some element =>
      if element.isDataPush then do
        let data ← element.value
        .ok (bitcoinScript data .redeem true)
      else .ok none

def readOwn (style : FilterType) : Except Exception (List Bytes) :=
  if script.elements = [] then .ok []
  else match style with
    | .es => readPushes script.elements
    | _ => do
      let opcode ← script.getOpcode 0
      if opcode = OP.RETURN then .ok [] else .ok [script.serialize]

/-- What is in the redeem script comes after its own. -/
def readElements (style : FilterType) : Except Exception (List Bytes) := do
  let own ← script.readOwn style
  match script.elements, style with
  | _ :: _, .es =>
    match ← script.readRedeemScript with
    | some subscript =>
      let below ← subscript.readOwn style
      .ok (own ++ below)
    | none => .ok own
  | _, _ => .ok own

end Script

/-! ## Builders -/

def bitcoinScriptNullData (data : List Bytes) : Option Script := scriptOf (opcode OP.RETURN :: data.map pushData) .output

/-- A key that is not there is no key. -/
def bitcoinScriptP2MS (m n : UInt8) (keys : List (Option Bytes)) : Option Script :=
  if m = 0 ∨ 16 < m then none
  else if n = 0 ∨ 16 < n then none
  else do
    let keys ← keys.mapM id
    scriptOf (opcode ⟨m + 80⟩ :: keys.map pushData ++ [opcode ⟨n + 80⟩, opcode OP.CHECKMULTISIG]) .output

end Opentxs.Bitcoin.BitcoinScript
