/-
# Transactions and blocks

`src/primitives/transaction.h` and `src/primitives/block.h`. An empty bundle is no bundle
(`HasShieldedBundle`). The transaction hash is a field, of which nothing is assumed.
-/

import Btx.Shielded.Bundle

namespace Btx

/-- `COutPoint`. -/
structure COutPoint where
  hash : Uint256
  n : ℕ
  deriving DecidableEq, Repr

/-- `COutPoint::NULL_INDEX`. -/
def nullIndex : ℕ := 0xffffffff

/-- `COutPoint::IsNull`. -/
def COutPoint.isNull (o : COutPoint) : Bool := decide (o.hash.IsNull ∧ o.n = nullIndex)

/-- `CTxIn` with its script witness. -/
structure CTxIn where
  prevout : COutPoint
  scriptSig : List UInt8 := []
  nSequence : ℕ := 0xffffffff
  scriptWitness : List (List UInt8) := []
  deriving DecidableEq, Repr

/-- `CTxOut`. -/
structure CTxOut where
  nValue : CAmount
  scriptPubKey : List UInt8 := []
  deriving DecidableEq, Repr

/-- `CTransaction`. -/
structure CTransaction where
  hash : Uint256
  version : ℕ := 2
  vin : List CTxIn := []
  vout : List CTxOut := []
  nLockTime : ℕ := 0
  shieldedBundle : Shielded.CShieldedBundle := {}
  deriving DecidableEq, Repr

namespace CTransaction

/-- `HasShieldedBundle`. -/
def hasShieldedBundle (tx : CTransaction) : Bool := !tx.shieldedBundle.isEmpty

/-- `IsCoinBase`. -/
def isCoinBase (tx : CTransaction) : Bool :=
  match tx.vin with
  | [input] => input.prevout.isNull
  | _ => false

/-- `GetValueOut`, the sum it returns when it does not throw. -/
def valueOut (tx : CTransaction) : CAmount := (tx.vout.map (·.nValue)).sum

end CTransaction

/-- `CBlock`, its transactions. -/
structure CBlock where
  vtx : List CTransaction
  deriving DecidableEq, Repr

/-- `BlockHasShieldedBundle`. -/
def blockHasShieldedBundle (block : CBlock) : Bool := block.vtx.any (·.hasShieldedBundle)

end Btx
