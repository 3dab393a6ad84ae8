import Opentxs.Spend.Commitment

/-! From the parts that the builder has collected to the signatures that it puts into its inputs. -/

namespace Opentxs.Spend.Signing
open Library Library.Endian Bitcoin BitcoinScript Transactions Transactions.Parser Blockchain Amount Builder
open Program (Meets)

/-- What an outpoint of the wallet is written as, and the output that is there. -/
structure Details where
  outpoint : Wallet.Types.Outpoint → Transactions.Outpoint
  previous : Wallet.Types.Outpoint → Previous

variable {ω Hash : Type} {node : Node ω} (details : Details) (chain : Category)

/-- An input has the last sequence number. -/
def assembleInput (input : TransactionInput) : SigningInput where
  previous := details.outpoint input.previousOutput
  sequence := 0xffffffff
  spends := details.previous input.previousOutput
  script := input.script
  witness := input.witness

def assembleOutput (output : TransactionOutput) : Output where
  index := UInt32.ofNat output.index
  value := output.value
  script := output.script

/-- The builder, when its inputs are about to be signed. -/
def assemble (final : Builder ω) : Signer where
  chain
  version := 1
  lockTime := 0
  segwit := final.segwit
  inputs := final.inputs.map fun (input, value) => (assembleInput details input, value)
  outputs := final.outputs.map assembleOutput
  outputTotal := final.outputTotal

theorem assemble_counted {final : Builder ω} (total : final.outputTotal = (final.outputs.map TransactionOutput.calculateSize).sum) :
    Counted (assemble details chain final) := by
  have sizes : (final.outputs.map assembleOutput).mapM Output.calculateSize =
      some ((final.outputs.map assembleOutput).map fun output => 8 + CompactSize.total output.script.calculateSize) := by
    apply mapM_all
    intro output member
    obtain ⟨source, _, rfl⟩ := List.mem_map.mp member
    rfl
  show ((final.outputs.map assembleOutput).mapM Output.calculateSize).map List.sum = some final.outputTotal
  rw [sizes, Option.map_some, List.map_map, total]
  rfl

/-- For every proposal, the signatures commit to the transaction that is sent exactly when the values that are hashed
have at most 63 bits, and the values of the new outputs too where an input is signed over a copy. -/
theorem signed_commits_iff {proposal : Proposal} {world : ω} {started final : Builder ω} {hashing : Hashing Hash}
    {digest : Bytes → Option Bytes} {keys : Keys} {signed : Progress Hash}
    (existing : caught (addExistingInputs node) (new proposal world) = (.ok true, started))
    (prepared : prepare node proposal started = (.ok (), final))
    (ran : Signing.signInputs hashing digest keys (assemble details chain final) = some signed) :
    Commits hashing digest signed ↔ Signable (assemble details chain final) := by
  have total := (prepare_outputTotal (addExistingInputs_fresh existing)).of_ok prepared
  exact commits_iff (assemble_counted details chain total) ran

/-! ## A payment -/

/-- The output at an odd index is a witness program. -/
def paidTo (value : UInt64) (outpoint : Wallet.Types.Outpoint) : Previous where
  value
  script := { role := .output, elements :=
    if outpoint.index % 2 = 1 then [opcode OP.ZERO, pushData (List.replicate 20 5)]
    else [opcode OP.DUP, opcode OP.HASH160, pushData (List.replicate 20 5), opcode OP.EQUALVERIFY, opcode OP.CHECKSIG] }

def paid (value : UInt64) : Details where
  outpoint := fun outpoint => ⟨⟨List.replicate 32 (UInt8.ofNat outpoint.txid), List.length_replicate ..⟩,
    ⟨toLittle 4 outpoint.index, toLittle_length ..⟩⟩
  previous := paidTo value

def checksum (bytes : Bytes) : Option Bytes := some (toLittle 32 (ofLittle bytes % 251))

def oneKey : Keys := fun preimage _ => some [(preimage.take 4 ++ List.replicate 67 1, List.replicate 33 2)]

theorem signed_commits_mixed : ∃ final signed,
    prepare (listNode (ofUnsigned 1000)) { addressRecipients := [payTo 12000] } (new { addressRecipients := [payTo 12000] }
      [ownOutput 10000 .payToPubkeyHash 0, ownOutput 10000 .payToWitnessPubkeyHash 1]) = (.ok (), final) ∧
    Signing.signInputs plainly checksum oneKey (assemble (paid 10000) .outputBased final) = some signed ∧
    (Commits plainly checksum signed ↔ Signable (assemble (paid 10000) .outputBased final)) := by
  have existing : caught (addExistingInputs (listNode (ofUnsigned 1000))) (new { addressRecipients := [payTo 12000] }
      [ownOutput 10000 .payToPubkeyHash 0, ownOutput 10000 .payToWitnessPubkeyHash 1]) = (.ok true, _) :=
    Prod.ext (by decide +kernel) rfl
  have prepared : prepare (listNode (ofUnsigned 1000)) { addressRecipients := [payTo 12000] } (new { addressRecipients := [payTo 12000] }
      [ownOutput 10000 .payToPubkeyHash 0, ownOutput 10000 .payToWitnessPubkeyHash 1]) = (.ok (), _) :=
    Prod.ext (by decide +kernel) rfl
  have ran : Signing.signInputs plainly checksum oneKey (assemble (paid 10000) .outputBased
      (prepare (listNode (ofUnsigned 1000)) { addressRecipients := [payTo 12000] } (new { addressRecipients := [payTo 12000] }
        [ownOutput 10000 .payToPubkeyHash 0, ownOutput 10000 .payToWitnessPubkeyHash 1])).2) = some _ :=
    (Option.some_get (by decide +kernel)).symm
  exact ⟨_, _, prepared, ran, signed_commits_iff (paid 10000) .outputBased existing prepared ran⟩

/-- An output of 2^63 units that a witness program was paid: its value is signed as zero. -/
theorem large_value_lost : ∃ started final signed,
    caught (addExistingInputs (listNode (ofUnsigned 1000))) (new { addressRecipients := [payTo 12000] }
      [ownOutput (2 ^ 63) .payToWitnessPubkeyHash 1]) = (.ok true, started) ∧
    prepare (listNode (ofUnsigned 1000)) { addressRecipients := [payTo 12000] } started = (.ok (), final) ∧
    Signing.signInputs plainly checksum oneKey (assemble (paid 0x8000000000000000) .outputBased final) = some signed ∧
    (∀ output ∈ (assemble (paid 0x8000000000000000) .outputBased final).outputs, 0 ≤ output.value.shiftRight ∧
      output.value.shiftRight ≤ 2 ^ 63 - 1) ∧ ¬ Commits plainly checksum signed :=
  ⟨_, _, _, Prod.ext (by decide +kernel) rfl, Prod.ext (by decide +kernel) rfl, (Option.some_get (by decide +kernel)).symm,
    by decide +kernel, by decide +kernel⟩

end Opentxs.Spend.Signing
