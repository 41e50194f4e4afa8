/-!
# Words with a meaning of their own

The words that are keywords of the contract language, and among them those that open a definition.
-/

namespace ContractAudit.Vocabulary

/-- The words that open a top-level form. -/
def definitions : List String :=
  ["define-constant", "define-public", "define-private", "define-read-only", "define-map",
   "define-data-var", "define-non-fungible-token", "define-fungible-token", "define-trait",
   "use-trait", "impl-trait"]

/-- Control flow and failure. -/
def control : List String :=
  ["let", "begin", "if", "match", "try!", "unwrap!", "unwrap-panic", "unwrap-err!",
   "unwrap-err-panic", "asserts!"]

/-- Responses and optional values. -/
def responses : List String :=
  ["ok", "err", "some", "none", "is-ok", "is-err", "is-some", "is-none", "default-to"]

/-- Logic, comparison and arithmetic. -/
def operators : List String :=
  ["and", "or", "not", "is-eq", "+", "-", "*", "/", "mod", "pow", "sqrti", "log2", "<", "<=", ">",
   ">="]

def storage : List String :=
  ["map-get?", "map-set", "map-insert", "map-delete", "var-get", "var-set"]

/-- The transaction, the chain and its native asset. -/
def context : List String :=
  ["contract-call?", "as-contract", "tx-sender", "contract-caller", "block-height",
   "burn-block-height", "stx-get-balance", "stx-transfer?", "stx-burn?"]

/-- Fungible and non-fungible tokens. -/
def assets : List String :=
  ["ft-mint?", "ft-transfer?", "ft-burn?", "ft-get-balance", "ft-get-supply", "nft-mint?",
   "nft-transfer?", "nft-burn?", "nft-get-owner?"]

def sequences : List String :=
  ["list", "append", "concat", "len", "filter", "map", "fold", "element-at", "index-of", "get",
   "merge", "tuple", "print"]

/-- Conversions between types. -/
def conversions : List String :=
  ["to-int", "to-uint", "buff-to-int-le", "buff-to-uint-le", "buff-to-int-be", "buff-to-uint-be",
   "int-to-ascii", "int-to-utf8", "string-to-int?", "string-to-uint?", "principal-of?",
   "principal-construct?"]

def keywords : List String :=
  definitions ++ control ++ responses ++ operators ++ storage ++ context ++ assets ++ sequences ++
    conversions

end ContractAudit.Vocabulary
