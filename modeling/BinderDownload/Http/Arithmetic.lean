import BinderDownload.Lib.Int64
import BinderDownload.Http.Replay

/-!
The arithmetic of the client on sizes. Every function that does some has a list of its operations, with the control
flow of the function.
-/

namespace BinderDownload.Http

open Text

variable {σ ρ : Type}

def placementOps (request : Request) (statusCode : ℤ) (headers : Headers) : List Op :=
  if statusCode = 206 then
    match parseContentRange (headers.get (ascii "Content-Range")) with
    | some _ => []
    | none => if contentLength headers < 0 then [] else [.add request.resumeFrom (contentLength headers)]
  else []

def pumpPlainOps (r : Reader) (want : ℤ) (onBody : BodyFn σ) (s : σ) (written : ℕ) : List Op :=
  if _hw : want < 0 ∨ (written : ℤ) < want then
    match _hr : r.refill with
    | .error _ => []
    | .ok (true, _) => if want < 0 then [] else [.sub want written]
    | .ok (false, r') =>
      let chunk := r'.slice want written
      (if 0 ≤ want then [.sub want written] else []) ++
        match onBody s (r'.buffered.take chunk) with
        | (false, _) => []
        | (true, s) => pumpPlainOps (r'.consume chunk) want onBody s (written + chunk)
  else []
termination_by r.source.data.length
decreasing_by
  obtain ⟨h1, -, h2, h3⟩ := Reader.source_slice _hr _hw
  rw [h3, List.length_drop]
  omega

def pumpChunkedOps (r : Reader) (onBody : BodyFn σ) (s : σ) : List Op :=
  match _h1 : r.readLine with
  | .error _ => []
  | .ok (line, r1) =>
    let size := strtoll (chunkHeader line) 16
    if size.2 = 0 ∨ size.1 < 0 then []
    else if size.1 = 0 then []
    else
      pumpPlainOps r1 size.1 onBody s 0 ++
        match _h2 : (pumpPlain r1 size.1 onBody s 0).outcome with
        | .error _ => []
        | .ok r2 =>
          match _h3 : r2.readLine with
          | .error _ => []
          | .ok (_, r3) => pumpChunkedOps r3 onBody (pumpPlain r1 size.1 onBody s 0).sink
termination_by r.source.data.length
decreasing_by
  have h1 := Reader.readLine_length _h1
  have h2 := pumpPlain_length _h2
  have h3 := Reader.readLine_length _h3
  omega

def bodyOps (head : Head) (r : Reader) (onBody : BodyFn σ) (s : σ) : List Op :=
  if head.chunked then pumpChunkedOps r onBody s else pumpPlainOps r head.contentLength onBody s 0

theorem placementOps_value {request : Request} {statusCode : ℤ} {headers : Headers} {op : Op}
    (hop : op ∈ placementOps request statusCode headers) :
    placement request statusCode headers = (request.resumeFrom, op.value) := by
  unfold placementOps at hop
  by_cases h206 : statusCode = 206
  · rw [if_pos h206] at hop
    rw [placement, if_pos h206]
    cases hrange : parseContentRange (headers.get (ascii "Content-Range")) with
    | some range =>
      rw [hrange] at hop
      cases hop
    | none =>
      rw [hrange] at hop
      dsimp only at hop ⊢
      by_cases hlength : contentLength headers < 0
      · rw [if_pos hlength] at hop
        cases hop
      · rw [if_neg hlength] at hop ⊢
        obtain rfl := List.mem_singleton.mp hop
        rfl
  · rw [if_neg h206] at hop
    cases hop

/-- Each piece of the body was measured by an operation that gives no less than its length; one more operation gives the
number of bytes that were missing when the connection was closed. -/
def Gauges (ops : List Op) (pieces : List Bytes) (outcome : Except Halt ρ) : Prop :=
  ∃ front back, ops = front ++ back ∧ List.Forall₂ (fun op piece => (piece.length : ℤ) ≤ op.value) front pieces ∧
    (back = [] ∨ ∃ op, back = [op] ∧ outcome = .error (closedEarly op.value))

section Gauges

variable {ops later : List Op} {pieces others : List Bytes} {outcome : Except Halt ρ} (f : BodyFn σ)

theorem gauges_nil : Gauges [] [] outcome := ⟨[], [], rfl, .nil, .inl rfl⟩

theorem Gauges.cons {op : Op} {piece : Bytes} (hle : (piece.length : ℤ) ≤ op.value) (h : Gauges ops pieces outcome) :
    Gauges (op :: ops) (piece :: pieces) outcome := by
  obtain ⟨front, back, rfl, hfront, hback⟩ := h
  exact ⟨op :: front, back, rfl, .cons hle hfront, hback⟩

theorem Gauges.append {ρ' : Type} {done : Except Halt ρ'} (hdone : ∀ halt, done ≠ .error halt)
    (h : Gauges ops pieces done) (hlater : Gauges later others outcome) :
    Gauges (ops ++ later) (pieces ++ others) outcome := by
  obtain ⟨front, back, rfl, hfront, rfl | ⟨op, -, hcut⟩⟩ := h
  · obtain ⟨front', back', rfl, hfront', hback'⟩ := hlater
    exact ⟨front ++ front', back', by simp, List.rel_append hfront hfront', hback'⟩
  · exact absurd hcut (hdone _)

theorem Gauges.error {ρ' : Type} {halt : Halt} (h : Gauges ops pieces (.error halt : Except Halt ρ')) :
    Gauges ops pieces (.error halt : Except Halt ρ) := by
  obtain ⟨front, back, hops, hfront, hback⟩ := h
  refine ⟨front, back, hops, hfront, hback.imp_right ?_⟩
  rintro ⟨op, rfl, hcut⟩
  exact ⟨op, rfl, by rw [Except.error.inj hcut]⟩

theorem slice_length {r : Reader} {want : ℤ} {written : ℕ} (hwant : 0 ≤ want) (hw : (written : ℤ) < want) :
    ((r.buffered.take (r.slice want written)).length : ℤ) ≤ want - written := by
  have htake : (r.buffered.take (r.slice want written)).length ≤ r.slice want written := List.length_take_le _ _
  unfold Reader.slice at htake ⊢
  rw [if_pos hwant] at htake ⊢
  omega

theorem pumpPlainOps_rejected {r r' : Reader} {want : ℤ} {written : ℕ} {s t : σ} (hwant : 0 ≤ want)
    (hw : want < 0 ∨ (written : ℤ) < want) (hr : r.refill = .ok (false, r'))
    (hf : f s (r'.buffered.take (r'.slice want written)) = (false, t)) :
    pumpPlainOps r want f s written = [.sub want written] := by
  rw [pumpPlainOps, dif_pos hw]
  split <;> rename_i h <;> rw [hr] at h <;> cases h
  simp only [hf, if_pos hwant, List.append_nil]

theorem pumpPlainOps_accepted {r r' : Reader} {want : ℤ} {written : ℕ} {s t : σ} (hwant : 0 ≤ want)
    (hw : want < 0 ∨ (written : ℤ) < want) (hr : r.refill = .ok (false, r'))
    (hf : f s (r'.buffered.take (r'.slice want written)) = (true, t)) :
    pumpPlainOps r want f s written =
      .sub want written ::
        pumpPlainOps (r'.consume (r'.slice want written)) want f t (written + r'.slice want written) := by
  rw [pumpPlainOps, dif_pos hw]
  split <;> rename_i h <;> rw [hr] at h <;> cases h
  simp only [hf, if_pos hwant, List.singleton_append]

theorem pumpPlainOps_gauges {want : ℤ} (hwant : 0 ≤ want) (r : Reader) (s : σ) (written : ℕ) :
    Gauges (pumpPlainOps r want f s written) (bodies (pumpPlainJournal r want f s written))
      (pumpPlain r want f s written).outcome := by
  fun_induction pumpPlain r want f s written with
  | case1 r s written hw halt hr =>
    rw [pumpPlainJournal_error f s hw hr, r.refill_reads.bodies, pumpPlainOps, dif_pos hw]
    split <;> rename_i h <;> rw [hr] at h <;> cases h
    exact gauges_nil
  | case2 r s written hw r' hr hneg => exact absurd hneg (not_lt.mpr hwant)
  | case3 r s written hw r' hr hneg =>
    rw [pumpPlainJournal_closed f s hw hr, r.refill_reads.bodies, pumpPlainOps, dif_pos hw]
    split <;> rename_i h <;> rw [hr] at h <;> cases h
    rw [if_neg hneg]
    exact ⟨[], _, rfl, .nil, .inr ⟨_, rfl, rfl⟩⟩
  | case4 r s written hw r' hr chunk t hf =>
    rw [pumpPlainJournal_rejected f s hw hr hf, bodies_append, r.refill_reads.bodies,
      pumpPlainOps_rejected f hwant hw hr hf]
    exact .cons (slice_length hwant (hw.resolve_left (not_lt.mpr hwant))) gauges_nil
  | case5 r s written hw r' hr chunk t hf ih =>
    rw [pumpPlainJournal_accepted f s hw hr hf, bodies_append, bodies_append, r.refill_reads.bodies,
      pumpPlainOps_accepted f hwant hw hr hf]
    exact .cons (slice_length hwant (hw.resolve_left (not_lt.mpr hwant))) ih
  | case6 r s written hw =>
    rw [pumpPlainJournal_met f s hw, pumpPlainOps, dif_neg hw]
    exact gauges_nil

theorem pumpChunkedOps_gauges (r : Reader) (s : σ) (written : ℕ) :
    Gauges (pumpChunkedOps r f s) (bodies (pumpChunkedJournal r f s)) (pumpChunked r f s written).outcome := by
  fun_induction pumpChunked r f s written with
  | case1 r s written halt h =>
    rw [pumpChunkedJournal_error f s h, r.readLine_reads.bodies, pumpChunkedOps]
    split <;> rename_i h' <;> rw [h] at h' <;> cases h'
    exact gauges_nil
  | case2 r s written line r1 h header size hbad =>
    rw [pumpChunkedJournal_malformed f s h hbad, r.readLine_reads.bodies, pumpChunkedOps]
    split <;> rename_i h' <;> rw [h] at h' <;> cases h'
    rw [if_pos hbad]
    exact gauges_nil
  | case3 r s written line r1 h header size hbad hz =>
    rw [pumpChunkedJournal_last f s h hbad hz, bodies_append, bodies_append, r.readLine_reads.bodies,
      (trailersJournal_reads r1).bodies, pumpChunkedOps]
    split <;> rename_i h' <;> rw [h] at h' <;> cases h'
    rw [if_neg hbad, if_pos hz]
    exact gauges_nil
  | case4 r s written line r1 h header size hbad hz pumped halt hp =>
    have hplain := pumpPlainOps_gauges f (show 0 ≤ size.1 by omega) r1 s 0
    have houtcome : (pumpPlain r1 size.1 f s 0).outcome = .error halt := hp
    rw [houtcome] at hplain
    rw [pumpChunkedJournal_cut f s h hbad hz hp, bodies_append, r.readLine_reads.bodies, pumpChunkedOps]
    split <;> rename_i h' <;> rw [h] at h' <;> cases h'
    rw [if_neg hbad, if_neg hz]
    split <;> rename_i h' <;> rw [hp] at h' <;> cases h'
    rw [List.append_nil]
    exact hplain.error
  | case5 r s written line r1 h header size hbad hz pumped r2 hp halt he =>
    have hplain := pumpPlainOps_gauges f (show 0 ≤ size.1 by omega) r1 s 0
    have houtcome : (pumpPlain r1 size.1 f s 0).outcome = .ok r2 := hp
    rw [houtcome] at hplain
    rw [pumpChunkedJournal_unended f s h hbad hz hp he, bodies_append, bodies_append, r.readLine_reads.bodies,
      r2.readLine_reads.bodies, List.nil_append, pumpChunkedOps]
    split <;> rename_i h' <;> rw [h] at h' <;> cases h'
    rw [if_neg hbad, if_neg hz]
    split <;> rename_i h' <;> rw [hp] at h' <;> cases h'
    split <;> rename_i h' <;> rw [he] at h' <;> cases h'
    exact hplain.append (fun _ hcut => by cases hcut) gauges_nil
  | case6 r s written line r1 h header size hbad hz pumped r2 hp line' r3 he ih =>
    have hplain := pumpPlainOps_gauges f (show 0 ≤ size.1 by omega) r1 s 0
    have houtcome : (pumpPlain r1 size.1 f s 0).outcome = .ok r2 := hp
    rw [houtcome] at hplain
    rw [pumpChunkedJournal_chunk f s h hbad hz hp he, bodies_append, bodies_append, bodies_append,
      r.readLine_reads.bodies, r2.readLine_reads.bodies, List.nil_append, List.nil_append, pumpChunkedOps]
    split <;> rename_i h' <;> rw [h] at h' <;> cases h'
    rw [if_neg hbad, if_neg hz]
    split <;> rename_i h' <;> rw [hp] at h' <;> cases h'
    split <;> rename_i h' <;> rw [he] at h' <;> cases h'
    exact hplain.append (fun _ hcut => by cases hcut) ih

end Gauges

theorem clamp_fits (n : ℤ) : Fits (clamp n) := by
  unfold clamp Fits
  omega

theorem strtoll_fits (s : Bytes) (base : ℕ) : Fits (strtoll s base).1 := by
  unfold strtoll
  dsimp only
  split_ifs
  · exact ⟨by decide, by decide⟩
  · exact clamp_fits _
  · exact clamp_fits _

theorem contentLength_fits (headers : Headers) : Fits (contentLength headers) := by
  unfold contentLength
  dsimp only
  split_ifs
  · exact ⟨by decide, by decide⟩
  · exact strtoll_fits _ 10

theorem placementOps_sound (request : Request) (statusCode : ℤ) (headers : Headers) (hresume : 0 ≤ request.resumeFrom) :
    (∀ op ∈ placementOps request statusCode headers, op.Sound) ↔
      (statusCode = 206 → parseContentRange (headers.get (ascii "Content-Range")) = none → 0 ≤ contentLength headers →
        request.resumeFrom + contentLength headers < 2 ^ 63) := by
  unfold placementOps
  by_cases h206 : statusCode = 206
  · simp only [h206, if_true, true_imp_iff]
    cases parseContentRange (headers.get (ascii "Content-Range")) with
    | some range => simp
    | none =>
      by_cases hneg : contentLength headers < 0
      · simp [hneg]
      · simp only [hneg, if_false, List.mem_singleton, forall_eq, true_imp_iff, not_lt.mp hneg]
        constructor
        · exact fun h => h.2
        · exact fits_of_nonneg (by omega)
  · simp [h206]

theorem inspectHead_length {url : Url} {request : Request} {info : ResponseInfo} {headers : Headers} {head : Head}
    (h : inspectHead url request info headers = .ok head) : head.contentLength = contentLength headers := by
  unfold inspectHead at h
  dsimp only at h
  split_ifs at h
  rw [← Except.ok.inj h]

theorem missing_sound {want : ℤ} {written : ℕ} (hwant : want < 2 ^ 63) (hw : want < 0 ∨ (written : ℤ) < want)
    (hpos : 0 ≤ want) : (Op.sub want written).Sound :=
  sub_sound (Int.natCast_nonneg _) (by omega) hwant

theorem pumpPlainOps_sound {want : ℤ} (hwant : want < 2 ^ 63) (r : Reader) (onBody : BodyFn σ) (s : σ) (written : ℕ) :
    ∀ op ∈ pumpPlainOps r want onBody s written, op.Sound := by
  fun_induction pumpPlainOps r want onBody s written with
  | case1 r s written hw halt hr => exact fun op hop => absurd hop List.not_mem_nil
  | case2 r s written hw r' hr hneg => exact fun op hop => absurd hop List.not_mem_nil
  | case3 r s written hw r' hr hneg =>
    intro op hop
    rw [List.mem_singleton.mp hop]
    exact missing_sound hwant hw (not_lt.mp hneg)
  | case4 r s written hw r' hr chunk ih =>
    intro op hop
    rcases List.mem_append.mp hop with hop | hop
    · split_ifs at hop with hpos
      · rw [List.mem_singleton.mp hop]
        exact missing_sound hwant hw hpos
      · cases hop
    · rcases hb : onBody s (r'.buffered.take chunk) with ⟨_ | _, t⟩
      · rw [hb] at hop
        cases hop
      · rw [hb] at hop
        exact ih t op hop
  | case5 r s written hw => exact fun op hop => absurd hop List.not_mem_nil

theorem pumpChunkedOps_sound (r : Reader) (onBody : BodyFn σ) (s : σ) : ∀ op ∈ pumpChunkedOps r onBody s, op.Sound := by
  fun_induction pumpChunkedOps r onBody s with
  | case1 r s halt h1 => exact fun op hop => absurd hop List.not_mem_nil
  | case2 r s line r1 h1 size hbad => exact fun op hop => absurd hop List.not_mem_nil
  | case3 r s line r1 h1 size hsize hlast => exact fun op hop => absurd hop List.not_mem_nil
  | case4 r s line r1 h1 size hsize hmore ih =>
    intro op hop
    rcases List.mem_append.mp hop with hop | hop
    · exact pumpPlainOps_sound (strtoll_fits _ 16).2 r1 onBody s 0 op hop
    · split at hop
      · cases hop
      · rename_i r2 h2
        split at hop
        · cases hop
        · rename_i text r3 h3
          exact ih r2 h2 text r3 h3 op hop

theorem bodyOps_sound {head : Head} (hlength : head.contentLength < 2 ^ 63) (r : Reader) (onBody : BodyFn σ) (s : σ) :
    ∀ op ∈ bodyOps head r onBody s, op.Sound := by
  unfold bodyOps
  split_ifs
  · exact pumpChunkedOps_sound r onBody s
  · exact pumpPlainOps_sound hlength r onBody s 0

end BinderDownload.Http
