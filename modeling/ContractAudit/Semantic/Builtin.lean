import ContractAudit.ValueType

/-!
# Builtin names

The names that the contract language itself defines, and the classes of builtin functions that the
analyses tell apart.
-/

namespace ContractAudit.Builtin

def globalTypes : List (String × ValueType) :=
  [("tx-sender", .principal), ("contract-caller", .principal), ("block-height", .uint),
   ("burn-block-height", .uint), ("stx-liquid-supply", .uint), ("chain-id", .uint),
   ("is-in-mainnet", .bool), ("is-in-regtest", .bool), ("true", .bool), ("false", .bool),
   ("none", .absent)]

/-- Arithmetic, comparison, logic and bits. -/
def operators : List String :=
  ["+", "-", "*", "/", "mod", "pow", "sqrti", "log2", "<", "<=", ">", ">=", "is-eq", "and", "or",
   "not", "xor", "bit-and", "bit-or", "bit-xor", "bit-not", "bit-shift-left", "bit-shift-right"]

/-- Responses and optional values. -/
def responses : List String :=
  ["unwrap!", "unwrap-panic", "unwrap-err!", "unwrap-err-panic", "try!", "is-ok", "is-err",
   "is-some", "is-none", "ok", "err", "some", "default-to", "asserts!"]

def storage : List String :=
  ["map-get?", "map-set", "map-insert", "map-delete", "var-get", "var-set"]

def sequences : List String :=
  ["list", "append", "concat", "len", "element-at", "element-at?", "index-of", "index-of?",
   "filter", "map", "fold", "slice?", "replace-at?", "as-max-len?", "get", "merge", "tuple"]

def control : List String :=
  ["begin", "if", "let", "match", "print"]

/-- The chain, other contracts and principals. -/
def context : List String :=
  ["contract-call?", "as-contract", "contract-of", "get-block-info?", "at-block", "is-standard",
   "principal-destruct?", "principal-construct?", "principal-of?", "stx-account"]

def assets : List String :=
  ["stx-get-balance", "stx-transfer?", "stx-transfer-memo?", "stx-burn?", "ft-mint?",
   "ft-transfer?", "ft-burn?", "ft-get-balance", "ft-get-supply", "nft-mint?", "nft-transfer?",
   "nft-burn?", "nft-get-owner?"]

def conversions : List String :=
  ["sha256", "sha512", "sha512/256", "keccak256", "hash160", "secp256k1-recover?",
   "secp256k1-verify", "to-int", "to-uint", "buff-to-int-le", "buff-to-uint-le",
   "buff-to-int-be", "buff-to-uint-be", "int-to-ascii", "int-to-utf8", "string-to-int?",
   "string-to-uint?", "to-consensus-buff?", "from-consensus-buff?"]

def functions : List String :=
  operators ++ responses ++ storage ++ sequences ++ control ++ context ++ assets ++ conversions

/-- The builtin functions that may end a transaction or signal failure. -/
def failable : List String :=
  ["unwrap!", "unwrap-panic", "unwrap-err!", "unwrap-err-panic", "asserts!", "stx-transfer?",
   "ft-transfer?", "nft-transfer?", "map-insert", "contract-call?"]

/-- The builtin functions that change contract storage. -/
def stateWrites : List String :=
  ["var-set", "map-set", "map-insert", "map-delete"]

/-- The builtin functions that move assets. -/
def transfers : List String :=
  ["stx-transfer?", "ft-transfer?", "nft-transfer?"]

def mapOperations : List String :=
  ["map-get?", "map-set", "map-insert", "map-delete"]

def mapWrites : List String :=
  ["map-set", "map-insert", "map-delete"]

/-- The builtin functions on data variables. -/
def variableOperations : List String :=
  ["var-get", "var-set"]

/-- The builtin functions whose first argument names a token. -/
def tokenOperations : List String :=
  ["ft-mint?", "ft-transfer?", "ft-burn?", "ft-get-balance", "ft-get-supply", "nft-mint?",
   "nft-transfer?", "nft-burn?", "nft-get-owner?"]

/-- The builtin functions whose first argument names a property of a block. -/
def blockInfo : List String :=
  ["get-block-info?", "get-burn-block-info?", "get-stacks-block-info?", "get-tenure-info?"]

/-- The builtin functions whose result has the type of the first argument. -/
def arithmetic : List String :=
  ["+", "-", "*", "/", "mod", "pow", "sqrti", "log2"]

/-- The builtin functions whose result is a truth value. -/
def comparisons : List String :=
  ["<", "<=", ">", ">=", "is-eq", "and", "or", "not", "is-ok", "is-err", "is-some", "is-none",
   "is-standard"]

def isGlobal (name : String) : Bool :=
  globalTypes.any fun entry => entry.1 = name

def isFunction (name : String) : Bool :=
  functions.contains name

def typeOf (name : String) : ValueType :=
  ((globalTypes.find? fun entry => entry.1 = name).map Prod.snd).getD .uint

end ContractAudit.Builtin
