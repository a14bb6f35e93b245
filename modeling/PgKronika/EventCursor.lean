import PgKronika.Base64Url
import PgKronika.CursorRegistry
import PgKronika.EventFacts

/-! The events query, its hash, and the authenticated cursor that continues it. -/
namespace PgKronika

open ByteCodec Utf8Text

def eventsDefaultLimit : ℕ := 100
def eventsMaxLimit : ℕ := 1000

/-- A validated request. -/
structure EventsRequest where
  range : CoverageSpan
  limit : ℕ
  limitPos : 0 < limit
  limitBound : limit ≤ eventsMaxLimit
  cursor : Option String
  minSeverity : Option Severity
  kind : Option String
  deriving DecidableEq

/-- The request without its page. -/
def EventsRequest.query (request : EventsRequest) : EventsRequest := { request with cursor := none }

def severityFilter : Option Severity → String
  | none => "none"
  | some value => "some:" ++ value.wireCode

def kindFilter : Option String → String
  | none => "none"
  | some value => "some:" ++ toString (utf8 value).length ++ ":" ++ value

def EventsRequest.filters (request : EventsRequest) : String :=
  "limit=" ++ toString request.limit ++ ";min_severity=" ++ severityFilter request.minSeverity ++
    ";kind=" ++ kindFilter request.kind

def notablePolicyVersion : UInt32 := 2
def redactionPolicyVersion : UInt32 := 1
def responseSchemaVersion : UInt32 := 2

def eventsQueryInput (range : CoverageSpan) (filters : String) : Bytes :=
  utf8 "pgk-overview-events-query-v1" ++ (i64Le range.fromUs ++ (i64Le range.toUs ++
    (u32Le notablePolicyVersion ++ (u32Le responseSchemaVersion ++
      (u32Le redactionPolicyVersion ++ utf8 filters)))))

def eventsQueryHash (sha256 : Bytes → Digest) (request : EventsRequest) : Digest :=
  sha256 (eventsQueryInput request.range request.filters)

section Query

theorem append_cons_inj {α : Type} {c : α} {a b r s : List α} (ha : c ∉ a) (hb : c ∉ b)
    (h : a ++ c::r = b ++ c::s) : a = b ∧ r = s := by
  induction a generalizing b with
  | nil =>
    cases b with
    | nil => exact ⟨rfl,List.tail_eq_of_cons_eq h⟩
    | cons x b => exact absurd (List.head_eq_of_cons_eq h) fun he => hb (he ▸ List.mem_cons_self ..)
  | cons x a ih =>
    cases b with
    | nil => exact absurd (List.head_eq_of_cons_eq h) fun he => ha (he ▸ List.mem_cons_self ..)
    | cons y b =>
      obtain ⟨rfl,hr⟩ := ih (fun hc => ha (List.mem_cons_of_mem _ hc))
        (fun hc => hb (List.mem_cons_of_mem _ hc)) (List.tail_eq_of_cons_eq h)
      exact ⟨by rw [List.head_eq_of_cons_eq h],hr⟩

theorem toString_injective {m n : ℕ} (h : (toString m).toList = (toString n).toList) : m = n := by
  have hdigits : Nat.toDigits 10 m = Nat.toDigits 10 n := by
    rw [← Nat.toList_repr,← Nat.toList_repr]
    exact h
  rw [← @Nat.ofDigitChars_ten_toDigits m,hdigits,Nat.ofDigitChars_ten_toDigits]

theorem notMem_toString {c : Char} (hc : c.isDigit = false) (n : ℕ) : c ∉ (toString n).toList := by
  intro hmem
  have hmem' : c ∈ Nat.toDigits 10 n := by
    rw [← Nat.toList_repr]
    exact hmem
  rw [Nat.isDigit_of_mem_toDigits (by decide) (by decide) hmem'] at hc
  cases hc

theorem severityFilter_injective {s t : Option Severity} (h : severityFilter s = severityFilter t) :
    s = t := by
  cases s with
  | none =>
    cases t with
    | none => rfl
    | some t => cases t <;> exact absurd h (by decide)
  | some s =>
    cases t with
    | none => cases s <;> exact absurd h (by decide)
    | some t => cases s <;> cases t <;> first | rfl | exact absurd h (by decide)

theorem notMem_severityFilter (s : Option Severity) : ';' ∉ (severityFilter s).toList := by
  cases s with
  | none => decide
  | some s => cases s <;> decide

theorem kindFilter_injective {k l : Option String} (h : kindFilter k = kindFilter l) : k = l := by
  have hlist := congrArg String.toList h
  cases k with
  | none =>
    cases l with
    | none => rfl
    | some l => simp [kindFilter,String.toList_append] at hlist
  | some k =>
    cases l with
    | none => simp [kindFilter,String.toList_append] at hlist
    | some l =>
      rw [kindFilter,kindFilter,String.toList_append,String.toList_append,String.toList_append,
        String.toList_append,String.toList_append,String.toList_append,List.append_assoc,
        List.append_assoc,List.append_assoc,List.append_assoc] at hlist
      have hrest := List.append_cancel_left hlist
      have hvalue := (append_cons_inj (notMem_toString (by decide) _)
        (notMem_toString (by decide) _) hrest).2
      rw [String.toList_inj.mp hvalue]

/-- The filter text tells the filters. -/
theorem filters_injective {r s : EventsRequest} (h : r.filters = s.filters) :
    r.limit = s.limit ∧ r.minSeverity = s.minSeverity ∧ r.kind = s.kind := by
  have hlist := congrArg String.toList h
  simp only [EventsRequest.filters,String.toList_append,List.append_assoc] at hlist
  obtain ⟨hlimit,hrest⟩ := append_cons_inj (notMem_toString (by decide) _)
    (notMem_toString (by decide) _) (List.append_cancel_left hlist)
  obtain ⟨hseverity,hrest⟩ := append_cons_inj (notMem_severityFilter _) (notMem_severityFilter _)
    (List.append_cancel_left hrest)
  exact ⟨toString_injective hlimit,severityFilter_injective (String.toList_inj.mp hseverity),
    kindFilter_injective (String.toList_inj.mp (List.append_cancel_left hrest))⟩

/-- The hashed bytes tell the query. -/
theorem eventsQueryInput_injective {r s : EventsRequest}
    (h : eventsQueryInput r.range r.filters = eventsQueryInput s.range s.filters) :
    r.query = s.query := by
  have h := List.append_cancel_left h
  obtain ⟨hfrom,h⟩ := List.append_inj h (by rw [i64Le_length,i64Le_length])
  obtain ⟨hto,h⟩ := List.append_inj h (by rw [i64Le_length,i64Le_length])
  have hfilters := utf8_injective
    (List.append_cancel_left (List.append_cancel_left (List.append_cancel_left h)))
  obtain ⟨hlimit,hseverity,hkind⟩ := filters_injective hfilters
  obtain ⟨⟨a,b,hab⟩,limit,_,_,_,severity,kind⟩ := r
  obtain ⟨⟨a',b',hab'⟩,limit',_,_,_,severity',kind'⟩ := s
  obtain rfl := i64Le_injective hfrom
  obtain rfl := i64Le_injective hto
  obtain rfl : limit = limit' := hlimit
  obtain rfl : severity = severity' := hseverity
  obtain rfl : kind = kind' := hkind
  rfl

end Query

def cursorVersion : UInt16 := 3
def payloadLen : ℕ := 2+16+8+8+32+32+8+32+32
def macLen : ℕ := 32

structure EventsCursor where
  lease : CursorLease
  queryHash : Digest
  lastTsUs : Int64
  lastEventId : Digest
  lastEventInstanceId : Digest
  deriving DecidableEq

section Codec

variable (sha256 : Bytes → Digest)

/-- Padded to the block of the digest. -/
def hmacPad (fill : UInt8) (secret : Digest) : Bytes :=
  secret.asBytes.map (fun byte => fill ^^^ byte) ++ List.replicate 32 fill

def hmacSha256 (secret : Digest) (message : Bytes) : Digest :=
  sha256 (hmacPad 0x5c secret ++ (sha256 (hmacPad 0x36 secret ++ message)).asBytes)

def keyId (secret : Digest) : Bytes := (sha256 secret.asBytes).asBytes.take 16

def digestAt (b : Bytes) (offset : ℕ) : Digest := ⟨Vector.ofFn fun i => b.getD (offset+i) 0⟩

def EventsCursor.fields (cursor : EventsCursor) (secret : Digest) : List Bytes :=
  [leBytes 2 cursorVersion.toNat,keyId sha256 secret,u64Le cursor.lease.issuedAt,
    u64Le cursor.lease.expiresAt,cursor.lease.factSetId.asBytes,cursor.queryHash.asBytes,
    i64Le cursor.lastTsUs,cursor.lastEventId.asBytes,cursor.lastEventInstanceId.asBytes]

def EventsCursor.payload (cursor : EventsCursor) (secret : Digest) : Bytes :=
  (cursor.fields sha256 secret).flatten

def EventsCursor.encode (cursor : EventsCursor) (secret : Digest) : String :=
  let payload := cursor.payload sha256 secret
  Base64Url.encode (payload ++ (hmacSha256 sha256 secret payload).asBytes)

/-- The fields of an authenticated payload. -/
def EventsCursor.ofPayload (payload : Bytes) : EventsCursor where
  lease := ⟨digestAt payload 34,u64At payload 18,u64At payload 26⟩
  queryHash := digestAt payload 66
  lastTsUs := i64At payload 98
  lastEventId := digestAt payload 106
  lastEventInstanceId := digestAt payload 138

def EventsCursor.decode (secret : Digest) (token : String) (expectedQueryHash : Digest)
    (nowSecs : UInt64) : Except CursorError EventsCursor :=
  match Base64Url.decode token with
  | none => .error .invalid
  | some bytes =>
    if bytes.length ≠ payloadLen+macLen then .error .invalid
    else
      let payload := bytes.take payloadLen
      if leNat (slice payload 0 2) ≠ cursorVersion.toNat then .error .invalid
      else if slice payload 2 16 ≠ keyId sha256 secret then .error .expired
      else if (hmacSha256 sha256 secret payload).asBytes ≠ bytes.drop payloadLen then
        .error .invalid
      else
        let cursor := EventsCursor.ofPayload payload
        if cursor.queryHash ≠ expectedQueryHash then .error .queryMismatch
        else if cursor.lease.expiresAt < cursor.lease.issuedAt ∨ cursor.lease.expiresAt ≤ nowSecs
        then .error .expired
        else .ok cursor

variable {sha256}

theorem digestAt_of_slice {b : Bytes} {offset : ℕ} {d : Digest}
    (h : slice b offset 32 = d.asBytes) : digestAt b offset = d := by
  obtain ⟨v⟩ := d
  refine congrArg Digest.mk (Vector.ext fun i hi => ?_)
  have hget : (slice b offset 32)[i]? = v.toList[i]? := congrArg (·[i]?) h
  rw [slice,List.getElem?_take_of_lt hi,List.getElem?_drop] at hget
  have hv : v.toList[i]? = some v[i] := by
    rw [List.getElem?_eq_getElem (by rw [Vector.length_toList]; exact hi),Vector.getElem_toList]
  rw [Vector.getElem_ofFn,List.getD_eq_getElem?_getD,hget,hv]
  rfl

theorem keyId_length (secret : Digest) : (keyId sha256 secret).length = 16 := by
  rw [keyId,List.length_take,Digest.asBytes_length]
  rfl

theorem payload_length (cursor : EventsCursor) (secret : Digest) :
    (cursor.payload sha256 secret).length = payloadLen := by
  simp [EventsCursor.payload,EventsCursor.fields,keyId_length,payloadLen]

theorem ofPayload_payload (cursor : EventsCursor) (secret : Digest) :
    EventsCursor.ofPayload (cursor.payload sha256 secret) = cursor := by
  have hkey := @keyId_length sha256 secret
  have hfield (i offset len : ℕ) (f : Bytes) (h : (cursor.fields sha256 secret)[i]? = some f)
      (ho : (((cursor.fields sha256 secret).take i).map List.length).sum = offset)
      (hl : f.length = len) : slice (cursor.payload sha256 secret) offset len = f :=
    slice_flatten h ho hl
  have hissued := hfield 2 18 8 _ rfl (by simp [EventsCursor.fields,hkey]) (u64Le_length _)
  have hexpires := hfield 3 26 8 _ rfl (by simp [EventsCursor.fields,hkey]) (u64Le_length _)
  have hfact := hfield 4 34 32 _ rfl (by simp [EventsCursor.fields,hkey]) (Digest.asBytes_length _)
  have hquery := hfield 5 66 32 _ rfl (by simp [EventsCursor.fields,hkey]) (Digest.asBytes_length _)
  have hts := hfield 6 98 8 _ rfl (by simp [EventsCursor.fields,hkey]) (i64Le_length _)
  have hevent := hfield 7 106 32 _ rfl (by simp [EventsCursor.fields,hkey])
    (Digest.asBytes_length _)
  have hinst := hfield 8 138 32 _ rfl (by simp [EventsCursor.fields,hkey])
    (Digest.asBytes_length _)
  rw [EventsCursor.ofPayload,digestAt_of_slice hfact,u64At_of_slice hissued,
    u64At_of_slice hexpires,digestAt_of_slice hquery,i64At_of_slice hts,
    digestAt_of_slice hevent,digestAt_of_slice hinst]

/-- What an accepted token carries. -/
theorem decode_ok {secret : Digest} {token : String} {expected : Digest} {nowSecs : UInt64}
    {cursor : EventsCursor}
    (h : EventsCursor.decode sha256 secret token expected nowSecs = .ok cursor) :
    ∃ payload, Base64Url.decode token =
        some (payload ++ (hmacSha256 sha256 secret payload).asBytes) ∧
      cursor = EventsCursor.ofPayload payload ∧ cursor.queryHash = expected ∧
      ¬cursor.lease.expiresAt < cursor.lease.issuedAt ∧ ¬cursor.lease.expiresAt ≤ nowSecs := by
  rw [EventsCursor.decode] at h
  cases hbytes : Base64Url.decode token with
  | none =>
    rw [hbytes] at h
    cases h
  | some bytes =>
    rw [hbytes] at h
    dsimp only at h
    split_ifs at h with hlen hversion hkey hmac hquery hlease
    obtain rfl := Except.ok.inj h
    refine ⟨bytes.take payloadLen,?_,rfl,not_not.mp hquery,?_,?_⟩
    · rw [not_not.mp hmac,List.take_append_drop]
    · exact fun hlt => hlease (.inl hlt)
    · exact fun hle => hlease (.inr hle)

/-- Every token is read back against its own query, up to its lease. -/
theorem decode_encode_lease {secret : Digest} {cursor : EventsCursor} {nowSecs : UInt64} :
    EventsCursor.decode sha256 secret (cursor.encode sha256 secret) cursor.queryHash nowSecs =
      if cursor.lease.expiresAt < cursor.lease.issuedAt ∨ cursor.lease.expiresAt ≤ nowSecs
      then .error .expired else .ok cursor := by
  have hlen := @payload_length sha256 cursor secret
  have hfields := @ofPayload_payload sha256 cursor secret
  have hversion : slice (cursor.payload sha256 secret) 0 2 = leBytes 2 cursorVersion.toNat :=
    @slice_flatten (cursor.fields sha256 secret) 0 0 2 _ rfl rfl (leBytes_length _ _)
  have hkey : slice (cursor.payload sha256 secret) 2 16 = keyId sha256 secret :=
    @slice_flatten (cursor.fields sha256 secret) 1 2 16 _ rfl rfl (keyId_length secret)
  rw [EventsCursor.decode,EventsCursor.encode,Base64Url.decode_encode]
  dsimp only
  generalize cursor.payload sha256 secret = payload at *
  have htake : (payload ++ (hmacSha256 sha256 secret payload).asBytes).take payloadLen = payload :=
    List.take_left' hlen
  have hdrop : (payload ++ (hmacSha256 sha256 secret payload).asBytes).drop payloadLen =
      (hmacSha256 sha256 secret payload).asBytes := List.drop_left' hlen
  rw [htake,hdrop,hfields,hversion,hkey,if_neg,if_neg,if_neg,if_neg,if_neg]
  · exact fun h => h rfl
  · exact fun h => h rfl
  · exact fun h => h rfl
  · exact fun h => h (leNat_leBytes (by decide))
  · rw [List.length_append,hlen,Digest.asBytes_length]
    exact fun h => h rfl

/-- A token is read back while its lease lasts. -/
theorem decode_encode {secret : Digest} {cursor : EventsCursor} {nowSecs : UInt64}
    (hissued : cursor.lease.issuedAt ≤ cursor.lease.expiresAt)
    (hnow : nowSecs < cursor.lease.expiresAt) :
    EventsCursor.decode sha256 secret (cursor.encode sha256 secret) cursor.queryHash nowSecs =
      .ok cursor := by
  rw [decode_encode_lease,if_neg]
  rintro (hlt | hle)
  · exact absurd hissued (UInt64.not_le.mpr hlt)
  · exact absurd hnow (UInt64.not_lt.mpr hle)

end Codec

end PgKronika
