import PgKronika.EpisodeClusters
import PgKronika.Sha256

/-! The key of an incident: the digest of its bounds and of its members in order. -/
namespace PgKronika
namespace Incident

open ByteCodec CheckedArith

def keyVersion : UInt8 := 2

def encodeBytes (bytes : Vec UInt8) : Bytes := countedBytes (fun b => [b]) bytes

namespace IdentityValue

def encodedLen : IdentityValue → Option ℕ
  | .i64 _ | .u64 _ => some 9
  | .bool _ => some 2
  | .text value => checkedAdd 9 value.val.length

def encode : IdentityValue → Bytes
  | .i64 value => [0x01]++i64Be value
  | .u64 value => [0x02]++u64Be value
  | .bool value => [0x03,if value then 1 else 0]
  | .text value => [0x04]++encodeBytes value

end IdentityValue

namespace EpisodeRefV1

def encodedLen (e : EpisodeRefV1) : Option ℕ := do
  let len ← checkedAdd 8 e.logicalSection.val.length
  let len ← checkedAdd len 8
  let len ← checkedAdd len e.column.val.length
  let len ← checkedAdd len 8
  let len ← checkedAdd len 16
  e.identity.val.foldlM (fun len value => value.encodedLen.bind (checkedAdd len)) len

def encode (e : EpisodeRefV1) : Bytes :=
  encodeBytes e.logicalSection++(encodeBytes e.column++
    (countedBytes IdentityValue.encode e.identity++(i64Be e.startUs++i64Be e.endUs)))

end EpisodeRefV1

structure KeyTooLarge where
  observed : ℕ
  limit : ℕ
  deriving DecidableEq

def keyLen (ordered : List EpisodeRefV1) : ℕ :=
  ordered.foldl (fun len e => saturatingAdd len (e.encodedLen.getD u64Max))
    (((checkedAdd 1 16).bind fun len => checkedAdd len 8).getD u64Max)

/-- What is hashed into the key. -/
def keyBytes (startUs endUs : Int64) (ordered : List EpisodeRefV1) : Bytes :=
  [keyVersion]++(i64Be startUs++(i64Be endUs++
    (u64Be (UInt64.ofNat ordered.length)++ordered.flatMap EpisodeRefV1.encode)))

def incidentKeyV2 (startUs endUs : Int64) (members : Vec EpisodeRefV1) (maxBytes : ℕ) :
    Except KeyTooLarge Bytes :=
  let ordered := members.val.mergeSort EpisodeRefV1.le
  if maxBytes < keyLen ordered then .error ⟨keyLen ordered,maxBytes⟩
  else .ok ((Sha256.sha256 (keyBytes startUs endUs ordered)).asBytes.take 12)

section Encoding

theorem encodeBytes_delimits : Delimits encodeBytes fun bytes => bytes := by
  intro a b r r' h
  obtain ⟨hkey,hrest⟩ := u8_delimits.countedBytes h
  simp only [List.map_id] at hkey
  exact ⟨Subtype.ext hkey,hrest⟩

theorem identity_delimits : Delimits IdentityValue.encode id := by
  intro a b r r' h
  cases a with
  | i64 a =>
    cases b with
    | i64 b =>
      obtain ⟨hkey,hrest⟩ := i64Be_delimits (List.cons.inj h).2
      exact ⟨congrArg IdentityValue.i64 hkey,hrest⟩
    | _ => exact absurd (List.cons.inj h).1 (by decide)
  | u64 a =>
    cases b with
    | u64 b =>
      obtain ⟨hkey,hrest⟩ := u64Be_delimits (List.cons.inj h).2
      exact ⟨congrArg IdentityValue.u64 hkey,hrest⟩
    | _ => exact absurd (List.cons.inj h).1 (by decide)
  | bool a =>
    cases b with
    | bool b =>
      obtain ⟨hkey,hrest⟩ := List.cons.inj (List.cons.inj h).2
      refine ⟨?_,hrest⟩
      cases a <;> cases b <;> first | rfl | exact absurd hkey (by decide)
    | _ => exact absurd (List.cons.inj h).1 (by decide)
  | text a =>
    cases b with
    | text b =>
      obtain ⟨hkey,hrest⟩ := encodeBytes_delimits (List.cons.inj h).2
      exact ⟨congrArg IdentityValue.text hkey,hrest⟩
    | _ => exact absurd (List.cons.inj h).1 (by decide)

/-- An episode is encoded by everything but its peak. -/
theorem episode_delimits : Delimits EpisodeRefV1.encode EpisodeRefV1.reference := by
  have hfields := (encodeBytes_delimits.comap EpisodeRefV1.logicalSection).append
    ((encodeBytes_delimits.comap EpisodeRefV1.column).append
      ((identity_delimits.countedBytes.comap EpisodeRefV1.identity).append
        ((i64Be_delimits.comap EpisodeRefV1.startUs).append
          (i64Be_delimits.comap EpisodeRefV1.endUs))))
  intro a b r r' h
  obtain ⟨hkey,hrest⟩ := hfields h
  refine ⟨?_,hrest⟩
  simp only [Function.comp,Prod.mk.injEq,List.map_id,id] at hkey
  obtain ⟨hsection,hcolumn,hidentity,hstart,hend⟩ := hkey
  simp only [EpisodeRefV1.reference,EpisodeRefV1.mk.injEq,and_true]
  exact ⟨hsection,hcolumn,Subtype.ext hidentity,hstart,hend⟩

variable {startUs endUs startUs' endUs' : Int64} {members members' : Vec EpisodeRefV1}

/-- The hashed bytes determine the bounds and the members, with their peaks left out. -/
theorem keyBytes_injective
    (h : keyBytes startUs endUs (members.val.mergeSort EpisodeRefV1.le) =
      keyBytes startUs' endUs' (members'.val.mergeSort EpisodeRefV1.le)) :
    startUs = startUs' ∧ endUs = endUs' ∧
      (members.val.map EpisodeRefV1.reference).Perm
        (members'.val.map EpisodeRefV1.reference) := by
  have hlen : ∀ l : Vec EpisodeRefV1, (l.val.mergeSort EpisodeRefV1.le).length < 2^63 :=
    fun l => by
      rw [List.length_mergeSort]
      exact l.property
  have hmembers : Delimits (fun l : Vec EpisodeRefV1 => countedBytes EpisodeRefV1.encode l)
      fun l => l.val.map EpisodeRefV1.reference := episode_delimits.countedBytes
  obtain ⟨hstart,hrest⟩ := i64Be_delimits (List.cons.inj h).2
  obtain ⟨hend,hrest⟩ := i64Be_delimits hrest
  have hsorted := (@hmembers ⟨_,hlen members⟩ ⟨_,hlen members'⟩ [] []
    (congrArg (·++[]) hrest)).1
  refine ⟨hstart,hend,?_⟩
  have hleft := (List.mergeSort_perm members.val EpisodeRefV1.le).map EpisodeRefV1.reference
  have hright := (List.mergeSort_perm members'.val EpisodeRefV1.le).map EpisodeRefV1.reference
  exact hleft.symm.trans ((List.Perm.of_eq hsorted).trans hright)

theorem reference_encode (e : EpisodeRefV1) : e.reference.encode = e.encode := rfl

theorem reference_encodedLen (e : EpisodeRefV1) : e.reference.encodedLen = e.encodedLen := rfl

theorem reference_orderKey (e : EpisodeRefV1) : e.reference.orderKey = e.orderKey := rfl

/-- Only the bounds and the references of the members go into the key. -/
theorem incidentKeyV2_congr (maxBytes : ℕ)
    (h : (members.val.map EpisodeRefV1.reference).Perm
      (members'.val.map EpisodeRefV1.reference)) :
    incidentKeyV2 startUs endUs members maxBytes = incidentKeyV2 startUs endUs members' maxBytes := by
  have hkeys : (members.val.map EpisodeRefV1.orderKey).Perm
      (members'.val.map EpisodeRefV1.orderKey) := by
    have hmapped := h.map EpisodeRefV1.orderKey
    rw [List.map_map,List.map_map] at hmapped
    exact hmapped
  have hrefs := EpisodeRefV1.references_of_keys (EpisodeRefV1.sorted_keys hkeys)
  have hlen : ∀ l : List EpisodeRefV1, keyLen (l.map EpisodeRefV1.reference) = keyLen l := by
    intro l
    rw [keyLen,List.foldl_map]
    rfl
  have hbytes : ∀ l : List EpisodeRefV1,
      keyBytes startUs endUs (l.map EpisodeRefV1.reference) = keyBytes startUs endUs l := by
    intro l
    rw [keyBytes,List.length_map,List.flatMap_map]
    rfl
  rw [incidentKeyV2,incidentKeyV2]
  simp only [← hlen (members.val.mergeSort EpisodeRefV1.le),
    ← hbytes (members.val.mergeSort EpisodeRefV1.le),hrefs,hlen,hbytes]

end Encoding

section Canonical

open EpisodeRefV1 SpanSweep

variable {epsilonUs maxClusterSpanUs : Int64} {episodes : List EpisodeRefV1}
  {outcome : ClusterOutcome}

theorem clusters_canonical (h : clusterEpisodes episodes epsilonUs maxClusterSpanUs = .ok outcome) :
    ((outcome.clusters.flatMap Cluster.members).Perm episodes ∧
      (outcome.clusters.flatMap Cluster.members).Pairwise fun a b => a.orderKey ≤ b.orderKey) ∧
    (∀ episodes' : List EpisodeRefV1, episodes'.Perm episodes →
      ∃ outcome', clusterEpisodes episodes' epsilonUs maxClusterSpanUs = .ok outcome' ∧
        outcome'.spanSplits = outcome.spanSplits ∧
        List.Forall₂ SameCluster outcome'.clusters outcome.clusters) ∧
    (∀ c ∈ outcome.clusters, c.Tight maxClusterSpanUs) ∧
    (outcome.clusters.IsChain fun c d =>
      startsLate epsilonUs c d = true ∨ overCap maxClusterSpanUs c d = true) ∧
    (outcome.spanSplits = (outcome.clusters.zip outcome.clusters.tail).countP fun p =>
      !startsLate epsilonUs p.1 p.2 && overCap maxClusterSpanUs p.1 p.2) ∧
    (∀ (c : Cluster) (e : EpisodeRefV1), c.startUs ≤ c.endUs →
      (isJoinable epsilonUs c e = true ↔
        e.startUs.toInt ≤ c.endUs.toInt+epsilonUs.toInt) ∧
      (spanFits maxClusterSpanUs c e = true ↔
        max c.endUs.toInt e.endUs.toInt-c.startUs.toInt ≤ maxClusterSpanUs.toInt)) ∧
    (∀ (startUs endUs : Int64) (members members' : Vec EpisodeRefV1) (maxBytes : ℕ),
      (members.val.map reference).Perm (members'.val.map reference) →
        incidentKeyV2 startUs endUs members maxBytes =
          incidentKeyV2 startUs endUs members' maxBytes) ∧
    ∀ (startUs endUs startUs' endUs' : Int64) (members members' : Vec EpisodeRefV1),
      keyBytes startUs endUs (members.val.mergeSort EpisodeRefV1.le) =
        keyBytes startUs' endUs' (members'.val.mergeSort EpisodeRefV1.le) →
      startUs = startUs' ∧ endUs = endUs' ∧
        (members.val.map reference).Perm (members'.val.map reference) := by
  have hadm := clusterEpisodes_admissible h
  have hsweeps : Sweeps episodes epsilonUs maxClusterSpanUs outcome := by
    rcases clusterEpisodes_sweeps hadm with ⟨found,hok,hfound⟩ | ⟨herr,-⟩
    · rw [h] at hok
      cases hok
      exact hfound
    · rw [h] at herr
      cases herr
  obtain ⟨hchain,hsplits⟩ := hsweeps.cuts
  refine ⟨?_,fun episodes' hperm => ?_,hsweeps.tight hadm,hchain,hsplits,fun c e hc => ⟨?_,?_⟩,
    fun _ _ _ _ maxBytes hperm => incidentKeyV2_congr maxBytes hperm,
    fun _ _ _ _ _ _ hbytes => keyBytes_injective hbytes⟩
  · rw [hsweeps.members]
    exact ⟨List.mergeSort_perm _ _,sorted_le episodes⟩
  · rcases clusterEpisodes_sweeps (hadm.perm hperm) with ⟨found,hok,hfound⟩ | ⟨-,hmany⟩
    · obtain ⟨hcount,hsame⟩ := hsweeps.perm hadm hperm hfound
      exact ⟨found,hok,hcount,hsame⟩
    · -- the splits are those of the order that is accepted
      have hbounded := hsweeps.bounded
      rw [hsweeps.spanSplits,← sorted_splits hperm] at hbounded
      omega
  · rw [isJoinable_eq hadm.epsilon,decide_eq_true_eq]
    rfl
  · rw [spanFits_eq (Int64.le_iff_toInt_le.mp hc),decide_eq_true_eq]
    rfl

def quietEpisode : EpisodeRefV1 where
  logicalSection := ⟨[115],by decide⟩
  column := ⟨[99],by decide⟩
  identity := ⟨[],by decide⟩
  startUs := 0
  endUs := 5
  peakTsUs := 2

theorem clusters_canonical_quiet : (Cluster.singleton quietEpisode).Tight 10 := by
  have hcluster : clusterEpisodes [quietEpisode] 1 10 =
      .ok ⟨[.singleton quietEpisode],0⟩ := by
    rw [clusterEpisodes,List.mergeSort_singleton]
    rfl
  exact (clusters_canonical hcluster).2.2.1 _ (by simp)

end Canonical

end Incident
end PgKronika
