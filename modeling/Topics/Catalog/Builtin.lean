import Topics.Definition.Family

/-! The built-in catalog: blocks, transactions, inputs, outputs, receipts and utxos. -/

namespace Topics

namespace Builtin

open Definition (family)

/-- A field with an identifier, described by what it identifies. -/
def identified (name : String) (kind : IdentifierKind) (what : String) : FieldSpec :=
  ⟨name, .identifier kind, what ++ " (32 byte string prefixed by 0x)"⟩

/-- The height of the block that contains an item. -/
def blockHeight (item : String) : FieldSpec :=
  ⟨"block_height", .integer .blockHeight, "The height of the block containing " ++ item⟩

/-- The id of the transaction that contains an item. -/
def txId (item : String) : FieldSpec :=
  identified "tx_id" .txId ("The ID of the transaction containing " ++ item)

/-- The place of a transaction in its block. -/
def txIndex : FieldSpec :=
  ⟨"tx_index", .integer .u32, "The index of the transaction within the block"⟩

/-- The place of an item in its transaction. -/
def index (name item : String) : FieldSpec :=
  ⟨name, .integer .u32, "The index of " ++ item ++ " within the transaction"⟩

/-- The fields that place an input on the chain. -/
def inputPlace (item : String) : List FieldSpec :=
  [blockHeight item, txId item, txIndex, index "input_index" "this input"]

/-- The fields that place an output on the chain. -/
def outputPlace (item : String) : List FieldSpec :=
  [blockHeight item, txId item, txIndex, index "output_index" "this output"]

/-- The fields that place a receipt on the chain. -/
def receiptPlace (item : String) : List FieldSpec :=
  [blockHeight item, txId item, txIndex, index "receipt_index" "this receipt"]

/-- Topics about blocks. -/
def blocks : Definition :=
  family "blocks" "Block" "BlocksSubject" ["blocks"]
    [⟨"producer", .identifier .address, "The address of the producer that created the block"⟩,
      ⟨"da_height", .integer .daBlockHeight,
        "The height of the DA block as unsigned 64 bit integer"⟩,
      ⟨"height", .integer .blockHeight, "The height of the block as unsigned 64 bit integer"⟩]
    []

/-- Topics about transactions. -/
def transactions : Definition :=
  family "transactions" "Transaction" "TransactionsSubject" ["transactions"]
    [blockHeight "this transaction",
      identified "tx_id" .txId "The ID of the transaction",
      txIndex,
      ⟨"tx_status", .label .transactionStatus,
        "The status of the transaction (success, failure, or submitted)"⟩,
      ⟨"tx_type", .label .transactionType, "The type of transaction (create, mint, script)"⟩]
    []

/-- A family of topics about one kind of input. -/
def input (key subject item : String) (own : List FieldSpec) : String × Definition :=
  (key, family ("inputs_" ++ key) "Input" subject ["inputs", key] (inputPlace item ++ own) [])

/-- The kinds of inputs. -/
def inputVariants : List (String × Definition) :=
  [input "coin" "InputsCoinSubject" "this coin input"
      [identified "owner" .address "The address of the coin owner",
        identified "asset" .assetId "The asset ID of the coin"],
    input "contract" "InputsContractSubject" "this contract input"
      [identified "contract" .contractId "The ID of the contract being called"],
    input "message" "InputsMessageSubject" "this message input"
      [identified "sender" .address "The address that sent the message",
        identified "recipient" .address "The address that will receive the message"]]

/-- Topics about inputs of any kind. -/
def inputs : Definition :=
  family "inputs" "Input" "InputsSubject" ["inputs"]
    (⟨"input_type", .label .inputType, "The type of input (coin, contract, or message)"⟩ ::
      inputPlace "this input")
    inputVariants

/-- A family of topics about one kind of output. -/
def output (key subject item : String) (own : List FieldSpec) : String × Definition :=
  (key, family ("outputs_" ++ key) "Output" subject ["outputs", key] (outputPlace item ++ own) [])

/-- A receiver and an asset. -/
def received (item : String) : List FieldSpec :=
  [identified "to" .address ("The recipient address of the " ++ item),
    identified "asset" .assetId ("The asset ID of the " ++ item)]

/-- The kinds of outputs. -/
def outputVariants : List (String × Definition) :=
  [output "coin" "OutputsCoinSubject" "this coin output"
      [identified "to" .address "The recipient address of the coin output",
        identified "asset" .assetId "The asset ID of the coin"],
    output "contract" "OutputsContractSubject" "this contract output"
      [identified "contract" .contractId "The ID of the contract"],
    output "change" "OutputsChangeSubject" "this change output" (received "change output"),
    output "variable" "OutputsVariableSubject" "this variable output" (received "variable output"),
    output "contract_created" "OutputsContractCreatedSubject" "this contract creation output"
      [identified "contract" .contractId "The ID of the created contract"]]

/-- Topics about outputs of any kind. -/
def outputs : Definition :=
  family "outputs" "Output" "OutputsSubject" ["outputs"]
    (⟨"output_type", .label .outputType,
        "The type of output (coin, contract, change, variable, or contract_created)"⟩ ::
      outputPlace "this output")
    outputVariants

/-- A family of topics about one kind of receipt. -/
def receipt (key subject item : String) (own : List FieldSpec) : String × Definition :=
  (key,
    family ("receipts_" ++ key) "Receipt" subject ["receipts", key] (receiptPlace item ++ own) [])

/-- The contract that did something. -/
def contractThat (deed : String) : FieldSpec :=
  identified "contract" .contractId ("The ID of the contract that " ++ deed)

/-- The contract that initiated something. -/
def initiator (deed : String) : FieldSpec :=
  identified "from" .contractId ("The contract ID that initiated the " ++ deed)

/-- The asset that is moved. -/
def movedAsset : FieldSpec := identified "asset" .assetId "The asset ID being transferred"

/-- The kinds of receipts. -/
def receiptVariants : List (String × Definition) :=
  [receipt "call" "ReceiptsCallSubject" "this call receipt"
      [initiator "call",
        identified "to" .contractId "The contract ID that was called",
        identified "asset" .assetId "The asset ID involved in the call"],
    receipt "return" "ReceiptsReturnSubject" "this return receipt" [contractThat "returned"],
    receipt "return_data" "ReceiptsReturnDataSubject" "this return data receipt"
      [contractThat "returned data"],
    receipt "panic" "ReceiptsPanicSubject" "this panic receipt" [contractThat "panicked"],
    receipt "revert" "ReceiptsRevertSubject" "this revert receipt" [contractThat "reverted"],
    receipt "log" "ReceiptsLogSubject" "this log receipt" [contractThat "emitted the log"],
    receipt "log_data" "ReceiptsLogDataSubject" "this log data receipt"
      [contractThat "emitted the log data"],
    receipt "transfer" "ReceiptsTransferSubject" "this transfer receipt"
      [initiator "transfer",
        identified "to" .contractId "The contract ID that received the transfer",
        movedAsset],
    receipt "transfer_out" "ReceiptsTransferOutSubject" "this transfer out receipt"
      [initiator "transfer out",
        identified "to_address" .address "The address that received the transfer",
        movedAsset],
    receipt "script_result" "ReceiptsScriptResultSubject" "this script result receipt" [],
    receipt "message_out" "ReceiptsMessageOutSubject" "this message out receipt"
      [identified "sender" .address "The address that sent the message",
        identified "recipient" .address "The address that will receive the message"],
    receipt "mint" "ReceiptsMintSubject" "this mint receipt"
      [contractThat "performed the mint",
        identified "sub_id" .bytes32 "The sub identifier of the minted asset"],
    receipt "burn" "ReceiptsBurnSubject" "this burn receipt"
      [contractThat "performed the burn",
        identified "sub_id" .bytes32 "The sub identifier of the burned asset"]]

/-- Topics about receipts of any kind. -/
def receipts : Definition :=
  family "receipts" "Receipt" "ReceiptsSubject" ["receipts"]
    (⟨"receipt_type", .label .receiptType, "The type of receipt"⟩ :: receiptPlace "this receipt")
    receiptVariants

/-- Topics about unspent outputs. -/
def utxos : Definition :=
  family "utxos" "Utxo" "UtxosSubject" ["utxos"]
    [blockHeight "this UTXO", txId "this UTXO", txIndex, index "input_index" "the input",
      ⟨"utxo_type", .label .utxoType,
        "The type of UTXO (input or output, and its coin, contract, variable or change kind)"⟩,
      identified "utxo_id" .hexData "The unique identifier for this UTXO",
      identified "contract_id" .contractId "The ID of the contract this UTXO belongs to"]
    []

end Builtin

namespace Catalog

/-- The bases of the built-in catalog, in the order in which they are published. -/
def builtin : Catalog :=
  [("blocks", Builtin.blocks), ("transactions", Builtin.transactions), ("inputs", Builtin.inputs),
    ("outputs", Builtin.outputs), ("receipts", Builtin.receipts), ("utxos", Builtin.utxos)]

end Catalog

end Topics
