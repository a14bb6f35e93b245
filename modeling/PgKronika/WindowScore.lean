import Mathlib

/-! The robust score of a window against a reference: a modified z-score over medians. -/
namespace PgKronika
namespace Anomaly

def minPositive : Float := .ofBits 0x0010000000000000

/-- The greater one. What is no number gives way. -/
def maxNum (a b : Float) : Float :=
  if a.isNaN then b else if b.isNaN then a else if a < b then b else a

/-- The place in the total order: negative before positive, then by magnitude. -/
def totalKey (v : Float) : ℤ :=
  if v.toBits.toNat < 2^63 then v.toBits.toNat else 2^63 - 1 - v.toBits.toNat

theorem totalKey_injective : Function.Injective totalKey := by
  intro a b h
  have hbits : a.toBits.toNat = b.toBits.toNat := by
    unfold totalKey at h
    split_ifs at h <;> omega
  obtain ⟨⟨bits,valid⟩⟩ := a
  obtain ⟨⟨bits',valid'⟩⟩ := b
  obtain rfl : bits = bits' := UInt64.toNat_inj.mp hbits
  rfl

/-- The mean of two numbers, halved before or after the sum so that nothing is lost. -/
def midpoint (a b : Float) : Float :=
  let least := Float.ofBits 0x0020000000000000
  let most := Float.ofBits 0x7FDFFFFFFFFFFFFF
  if a.abs ≤ most ∧ b.abs ≤ most then (a+b)/2
  else if a.abs < least then a+b/2
  else if b.abs < least then a/2+b
  else a/2+b/2

structure ScoreParams where
  minRef : ℕ
  minCur : ℕ
  epsAbs : Float
  epsRel : Float

/-- Gates of at least one point, and floors that are positive and not negative. -/
def ScoreParams.new (minRef minCur : ℕ) (epsAbs epsRel : Float) : ScoreParams where
  minRef := if minRef = 0 then 1 else minRef
  minCur := if minCur = 0 then 1 else minCur
  epsAbs := maxNum epsAbs minPositive
  epsRel := maxNum epsRel 0

inductive Direction
  | up | down | flat
  deriving DecidableEq

structure Evaluated where
  m : Float
  dir : Direction
  medCur : Float
  medRef : Float
  madRef : Float
  sigmaUsed : Float
  nCur : ℕ
  nRef : ℕ
  deriving DecidableEq

inductive NotEvaluatedReason
  | refTooSmall | curTooSmall | allNoData | nonFinite | discontinuity
  deriving DecidableEq

inductive Scored
  | evaluated (score : Evaluated)
  | notEvaluated (reason : NotEvaluatedReason)
  deriving DecidableEq

def madToSigma : Float := 1.4826

/-- The median of values, of which there is at least one. -/
def median (values : List Float) : Float :=
  let sorted := values.mergeSort fun a b => decide (totalKey a ≤ totalKey b)
  let mid := sorted.length/2
  if sorted.length % 2 = 1 then sorted.getD mid 0
  else midpoint (sorted.getD (mid-1) 0) (sorted.getD mid 0)

/-- The median distance from a median. -/
def mad (values : List Float) (med : Float) : Float := median (values.map fun v => (v-med).abs)

def scoreWindow (cur ref : List Float) (params : ScoreParams) : Scored :=
  if cur.isEmpty && ref.isEmpty then .notEvaluated .allNoData
  else if ref.length < params.minRef then .notEvaluated .refTooSmall
  else if cur.length < params.minCur then .notEvaluated .curTooSmall
  else if !cur.all Float.isFinite || !ref.all Float.isFinite then .notEvaluated .nonFinite
  else
    let refMedian := median ref
    let refMad := mad ref refMedian
    let floor := maxNum params.epsAbs (params.epsRel*refMedian.abs)
    let sigmaUsed := maxNum (madToSigma*refMad) floor
    let curMedian := median cur
    let m := (curMedian-refMedian)/sigmaUsed
    let dir := if 0 < m then Direction.up else if m < 0 then .down else .flat
    .evaluated ⟨m,dir,curMedian,refMedian,refMad,sigmaUsed,cur.length,ref.length⟩

/-- A score tells nothing of breaks. -/
theorem scoreWindow_ne_discontinuity (cur ref : List Float) (params : ScoreParams) :
    scoreWindow cur ref params ≠ .notEvaluated .discontinuity := by
  unfold scoreWindow
  split_ifs <;> simp

end Anomaly
end PgKronika
