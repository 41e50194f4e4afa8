import ContractAudit.Semantic.Builtin
import ContractAudit.Syntax.Expr

/-!
# Effects of calls

What a call does, as far as its callee and its arguments tell: whether the callee is builtin,
whether it leaves the contract, whether it can fail, and which storage it reads or writes.
-/

namespace ContractAudit

/-- What an effect is on. -/
inductive EffectKind where
  | mapAccess
  | variableAccess
  | tokenTransfer
  | externalCall
deriving DecidableEq, Repr

def EffectKind.label : EffectKind → String
  | .mapAccess => "map-access"
  | .variableAccess => "var-access"
  | .tokenTransfer => "token-transfer"
  | .externalCall => "external-call"

/-- The two ways to use storage. -/
inductive Access where
  | read
  | write
deriving DecidableEq, Repr

def Access.label : Access → String
  | .read => "read"
  | .write => "write"

/-- An effect of a call. -/
structure SideEffect where
  kind : EffectKind
  access : Access
  target : Option String
deriving DecidableEq, Repr

/-- What is known of a call. -/
structure CallInfo where
  name : String
  isBuiltin : Bool
  isExternal : Bool
  canFail : Bool
  effects : List SideEffect
deriving DecidableEq, Repr

namespace CallInfo

def leavesContract (callee : String) : Bool :=
  callee = "contract-call?" || isDotted callee

def storageName? : List Expr → Option String
  | .identifier _ name :: _ => some name
  | _ => none

/-- An access to storage, if the storage is named. An empty name names nothing. -/
def storageEffect (kind : EffectKind) (access : Access) (args : List Expr) : List SideEffect :=
  match storageName? args with
  | some name => if name.isEmpty then [] else [⟨kind, access, some name⟩]
  | none => []

def effectsOf (callee : String) (args : List Expr) : List SideEffect :=
  if Builtin.mapWrites.contains callee then storageEffect .mapAccess .write args
  else if callee = "map-get?" then storageEffect .mapAccess .read args
  else if callee = "var-set" then storageEffect .variableAccess .write args
  else if callee = "var-get" then storageEffect .variableAccess .read args
  else if Builtin.transfers.contains callee then [⟨.tokenTransfer, .write, none⟩]
  else if leavesContract callee then [⟨.externalCall, .write, none⟩]
  else []

/-- What is known of a call of a callee with some arguments. -/
def ofCall (callee : String) (args : List Expr) : CallInfo where
  name := callee
  isBuiltin := Builtin.isFunction callee
  isExternal := leavesContract callee
  canFail := Builtin.failable.contains callee
  effects := effectsOf callee args

end CallInfo

end ContractAudit
