/-! The closed sets of words that label fields may hold. -/

namespace Topics

/-- A closed set of words. -/
inductive Vocabulary where
  | transactionStatus
  | transactionType
  | inputType
  | outputType
  | receiptType
  | utxoType
  deriving DecidableEq, Repr

namespace Vocabulary

/-- All vocabularies, in the order in which they are listed. -/
def all : List Vocabulary :=
  [transactionStatus, transactionType, inputType, outputType, receiptType, utxoType]

/-- The name under which a vocabulary is known in messages and schemas. -/
def name : Vocabulary → String
  | transactionStatus => "TransactionStatus"
  | transactionType => "TransactionType"
  | inputType => "InputType"
  | outputType => "OutputType"
  | receiptType => "ReceiptType"
  | utxoType => "UtxoType"

/-- The words of a vocabulary, in the order in which they are listed. -/
def words : Vocabulary → List String
  | transactionStatus =>
    ["pre_confirmation_failed", "pre_confirmation_success", "failed", "submitted", "squeezed_out",
      "success"]
  | transactionType => ["create", "mint", "script", "upgrade", "upload", "blob"]
  | inputType => ["contract", "coin", "message"]
  | outputType => ["coin", "contract", "change", "variable", "contract_created"]
  | receiptType =>
    ["call", "return", "return_data", "panic", "revert", "log", "log_data", "transfer",
      "transfer_out", "script_result", "message_out", "mint", "burn"]
  | utxoType => ["input_contract", "input_coin", "output_coin", "output_variable", "output_change"]

/-- The vocabulary known under a name. -/
def ofName? (text : String) : Option Vocabulary := all.find? (fun v => v.name == text)

end Vocabulary

/-- A word together with the vocabulary that lists it. -/
structure Label where
  /-- The set that the word is taken from. -/
  vocabulary : Vocabulary
  /-- The word itself. -/
  word : String
  /-- Only listed words are labels. -/
  listed : word ∈ vocabulary.words
  deriving DecidableEq, Repr

namespace Vocabulary

/-- The label that a word is in this vocabulary; upper and lower case differ. -/
def label? (vocabulary : Vocabulary) (word : String) : Option Label :=
  -- The comparison that finds the word is also the proof that it is listed.
  if listed : word ∈ vocabulary.words then some ⟨vocabulary, word, listed⟩ else none

/-- Every label of a vocabulary, in the order of its words. -/
def labels (vocabulary : Vocabulary) : List Label :=
  vocabulary.words.attach.map fun word => ⟨vocabulary, word.1, word.2⟩

end Vocabulary

/-- Labels of one vocabulary with the same word are the same label. -/
theorem Label.ext {a b : Label} (sameSet : a.vocabulary = b.vocabulary) (same : a.word = b.word) :
    a = b := by
  cases a
  cases b
  simp_all

end Topics
