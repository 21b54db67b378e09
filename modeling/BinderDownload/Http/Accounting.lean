import BinderDownload.Http.Exchange

namespace BinderDownload.Http

open Text

variable {σ ρ τ : Type}

namespace Reader

def Valid (r : Reader) : Prop := r.mOffset ≤ r.mAvailable ∧ r.mAvailable ≤ r.mBuffer.length

end Reader

inductive Moment
  | state (r : Reader)
  | call (r : Reader) (length : ℕ) (accepted : Bool)

namespace Moment

/-- What a call hands over: `length` bytes from where `buffered` points. -/
def offered : Moment → List Bytes
  | .state _ => []
  | .call r length _ => [(r.mBuffer.drop r.mOffset).take length]

def accepted : Moment → List Bytes
  | .call r length true => offered (.call r length true)
  | _ => []

def rejects : Moment → Bool
  | .call _ _ accepted => !accepted
  | .state _ => false

def Valid : Moment → Prop
  | .state r => r.Valid
  | .call r length _ => r.Valid ∧ 0 < length ∧ r.mOffset + length ≤ r.mAvailable

end Moment

namespace Reader

def scanMoments (line : Bytes) (r : Reader) : Bytes → List Moment
  | [] => []
  | c :: cs =>
    .state (r.consume 1) ::
      if c = 10 then []
      else if kMaxLineLength ≤ line.length then []
      else scanMoments (line ++ [c]) (r.consume 1) cs

def readLineFromMoments (line : Bytes) (r : Reader) : List Moment :=
  scanMoments line r r.buffered ++
    match scan line 0 r.buffered with
    | .line _ _ => []
    | .tooLong => []
    | .more line =>
      match _h : (r.consume r.bufferedSize).fill with
      | .error _ => []
      | .ok (true, r') => [.state r']
      | .ok (false, r') => .state r' :: readLineFromMoments line r'
termination_by r.ticks.length
decreasing_by simpa [consume] using fill_ticks _h

def readLineMoments (r : Reader) : List Moment := .state r :: readLineFromMoments [] r

end Reader

def pumpPlainMoments (r : Reader) (want : ℤ) (onBody : BodyFn σ) (s : σ) (written : ℕ) : List Moment :=
  if _hw : want < 0 ∨ (written : ℤ) < want then
    match _hr : r.refill with
    | .error _ => [.state r]
    | .ok (true, r') => [.state r, .state r']
    | .ok (false, r') =>
      let chunk := r'.slice want written
      .state r :: .call r' chunk (onBody s (r'.buffered.take chunk)).1 ::
        match onBody s (r'.buffered.take chunk) with
        | (false, _) => []
        | (true, s) => pumpPlainMoments (r'.consume chunk) want onBody s (written + chunk)
  else [.state r]
termination_by r.source.data.length
decreasing_by
  obtain ⟨h1, -, h2, h3⟩ := Reader.source_slice _hr _hw
  rw [h3, List.length_drop]
  omega

def trailersMoments (r : Reader) : List Moment :=
  r.readLineMoments ++
    match _h : r.readLine with
    | .error _ => []
    | .ok (line, r') => if line = [] then [] else trailersMoments r'
termination_by r.source.data.length
decreasing_by exact Reader.readLine_length _h

def pumpChunkedMoments (r : Reader) (onBody : BodyFn σ) (s : σ) : List Moment :=
  r.readLineMoments ++
    match _h1 : r.readLine with
    | .error _ => []
    | .ok (line, r1) =>
      let size := strtoll (chunkHeader line) 16
      if size.2 = 0 ∨ size.1 < 0 then []
      else if size.1 = 0 then trailersMoments r1
      else
        pumpPlainMoments r1 size.1 onBody s 0 ++
          match _h2 : (pumpPlain r1 size.1 onBody s 0).outcome with
          | .error _ => []
          | .ok r2 =>
            r2.readLineMoments ++
              match _h3 : r2.readLine with
              | .error _ => []
              | .ok (_, r3) => pumpChunkedMoments r3 onBody (pumpPlain r1 size.1 onBody s 0).sink
termination_by r.source.data.length
decreasing_by
  have h1 := Reader.readLine_length _h1
  have h2 := pumpPlain_length _h2
  have h3 := Reader.readLine_length _h3
  omega

inductive Reader.Reached : Reader → Prop
  | new (ticks : List Tick) (polls : Bool) (idleTimeoutMs : ℤ) : Reached (Reader.new ticks polls idleTimeoutMs)
  | readLine {r r' : Reader} {line : Bytes} : Reached r → r.readLine = .ok (line, r') → Reached r'
  | pumped {r r' : Reader} {σ : Type} {want : ℤ} {onBody : BodyFn σ} {s : σ} {written : ℕ} :
      Reached r → (pumpPlain r want onBody s written).outcome = .ok r' → Reached r'

namespace Reader

theorem new_valid (ticks : List Tick) (polls : Bool) (idleTimeoutMs : ℤ) : (new ticks polls idleTimeoutMs).Valid :=
  ⟨le_rfl, Nat.zero_le _⟩

theorem receive_valid (r : Reader) (segment : Segment) (ticks : List Tick) : (r.receive segment ticks).Valid := by
  refine ⟨Nat.zero_le _, ?_⟩
  rw [(r.receive segment ticks).size_eq]
  exact segment.le_size

theorem consume_valid {r : Reader} (h : r.Valid) {n : ℕ} (hn : n ≤ r.bufferedSize) : (r.consume n).Valid := by
  obtain ⟨hoffset, havailable⟩ := h
  unfold bufferedSize at hn
  refine ⟨?_, havailable⟩
  change r.mOffset + n ≤ r.mAvailable
  omega

theorem fillFrom_valid {r r' : Reader} {eof : Bool} {ts : List Tick} (h : r.Valid)
    (hfill : r.fillFrom ts = .ok (eof, r')) : r'.Valid := by
  induction ts with
  | nil => cases hfill
  | cons t ts ih =>
    unfold fillFrom at hfill
    split_ifs at hfill
    split at hfill
    · cases hfill
      exact receive_valid _ _ _
    · cases hfill
      exact h
    · split_ifs at hfill
      exact ih hfill
    · cases hfill

theorem fill_valid {r r' : Reader} {eof : Bool} (h : r.Valid) (hfill : r.fill = .ok (eof, r')) : r'.Valid :=
  fillFrom_valid h hfill

theorem refill_valid {r r' : Reader} {eof : Bool} (h : r.Valid) (hfill : r.refill = .ok (eof, r')) : r'.Valid := by
  unfold refill at hfill
  split_ifs at hfill
  · exact fill_valid h hfill
  · cases hfill
    exact h

theorem scan_used {line l : Bytes} {used n : ℕ} {bs : Bytes} (h : scan line used bs = .line l n) :
    n ≤ used + bs.length := by
  have hs := scan_source line used bs [] .closed
  rw [h] at hs
  exact hs.2.1

theorem drained_valid {r : Reader} (h : r.Valid) : (r.consume r.bufferedSize).Valid := consume_valid h le_rfl

theorem readLineFrom_valid {r r' : Reader} {line l : Bytes} (h : r.Valid)
    (hline : r.readLineFrom line = .ok (l, r')) : r'.Valid := by
  fun_induction readLineFrom line r with
  | case1 line r l n hs =>
    cases hline
    have hn := scan_used hs
    rw [Nat.zero_add, buffered_length] at hn
    exact consume_valid h hn
  | case2 line r hs => cases hline
  | case3 line r l hs halt hf => cases hline
  | case4 line r l hs r1 hf => cases hline
  | case5 line r l hs r1 hf ih => exact ih (fill_valid (drained_valid h) hf) hline

theorem readLine_valid {r r' : Reader} {l : Bytes} (h : r.Valid) (hline : r.readLine = .ok (l, r')) : r'.Valid :=
  readLineFrom_valid h hline

end Reader

theorem pumpPlain_valid {r r' : Reader} {want : ℤ} {onBody : BodyFn σ} {s : σ} {written : ℕ} (h : r.Valid)
    (hout : (pumpPlain r want onBody s written).outcome = .ok r') : r'.Valid := by
  fun_induction pumpPlain r want onBody s written with
  | case1 r s written hw halt hr => cases hout
  | case2 r s written hw r1 hr hneg =>
    cases hout
    exact Reader.refill_valid h hr
  | case3 r s written hw r1 hr hneg => cases hout
  | case4 r s written hw r1 hr chunk t hb => cases hout
  | case5 r s written hw r1 hr chunk t hb ih =>
    have hle := (Reader.source_slice hr hw).2.1
    exact ih (Reader.consume_valid (Reader.refill_valid h hr) hle) hout
  | case6 r s written hw =>
    cases hout
    exact h

theorem Reader.Reached.valid {r : Reader} (h : r.Reached) : r.Valid := by
  induction h with
  | new ticks polls idleTimeoutMs => exact new_valid ticks polls idleTimeoutMs
  | readLine _ hline ih => exact readLine_valid ih hline
  | pumped _ hout ih => exact pumpPlain_valid ih hout

theorem readHeaders_reached {r r' : Reader} {headers headers' : Headers} (h : r.Reached)
    (hr : readHeaders r headers = .ok (headers', r')) : r'.Reached := by
  fun_induction readHeaders r headers with
  | case1 r headers halt hline => cases hr
  | case2 r headers r1 hline =>
    cases hr
    exact h.readLine hline
  | case3 r headers line r1 hline hl hc ih => exact ih (h.readLine hline) hr
  | case4 r headers line r1 hline hl colon hc hk => cases hr
  | case5 r headers line r1 hline hl colon hc hk ih => exact ih (h.readLine hline) hr

def Silent (moments : List Moment) : Prop := ∀ m ∈ moments, ∃ r : Reader, m = .state r ∧ r.Valid

theorem Silent.nil : Silent [] := fun _ hm => absurd hm List.not_mem_nil

theorem Silent.cons {r : Reader} (h : r.Valid) {moments : List Moment} (hm : Silent moments) :
    Silent (.state r :: moments) := by
  intro m hmem
  rcases List.mem_cons.mp hmem with rfl | hmem
  · exact ⟨r, rfl, h⟩
  · exact hm m hmem

theorem Silent.append {ms ns : List Moment} (hm : Silent ms) (hn : Silent ns) : Silent (ms ++ ns) := by
  intro m hmem
  rcases List.mem_append.mp hmem with hmem | hmem
  · exact hm m hmem
  · exact hn m hmem

theorem scanMoments_silent {bs : Bytes} (line : Bytes) {r : Reader} (h : r.Valid) (hbs : bs.length ≤ r.bufferedSize) :
    Silent (Reader.scanMoments line r bs) := by
  induction bs generalizing line r with
  | nil => exact Silent.nil
  | cons c cs ih =>
    rw [List.length_cons] at hbs
    have hnext : (r.consume 1).Valid := Reader.consume_valid h (by omega)
    have hleft : cs.length ≤ (r.consume 1).bufferedSize := by
      change cs.length ≤ r.mAvailable - (r.mOffset + 1)
      unfold Reader.bufferedSize at hbs
      omega
    unfold Reader.scanMoments
    refine Silent.cons hnext ?_
    split_ifs
    · exact Silent.nil
    · exact Silent.nil
    · exact ih _ hnext hleft

theorem readLineFromMoments_silent (line : Bytes) {r : Reader} (h : r.Valid) :
    Silent (r.readLineFromMoments line) := by
  fun_induction Reader.readLineFromMoments line r with
  | case1 line r ih =>
    refine (scanMoments_silent line h (Reader.buffered_length r).le).append ?_
    split
    · exact Silent.nil
    · exact Silent.nil
    · split
      · exact Silent.nil
      · rename_i hf
        exact Silent.cons (Reader.fill_valid (Reader.drained_valid h) hf) Silent.nil
      · rename_i hf
        have hfilled := Reader.fill_valid (Reader.drained_valid h) hf
        exact Silent.cons hfilled (ih _ _ hf hfilled)

theorem readLineMoments_silent {r : Reader} (h : r.Valid) : Silent r.readLineMoments :=
  (readLineFromMoments_silent [] h).cons h

theorem trailersMoments_silent {r : Reader} (h : r.Valid) : Silent (trailersMoments r) := by
  fun_induction trailersMoments r with
  | case1 r ih =>
    refine (readLineMoments_silent h).append ?_
    split
    · exact Silent.nil
    · rename_i line r1 hline
      split_ifs
      · exact Silent.nil
      · exact ih line r1 hline (Reader.readLine_valid h hline)

def acceptedBytes (moments : List Moment) : Bytes := (moments.flatMap Moment.accepted).flatten

/-- What the books of a pump say that starts with the sink `s` and the counter `written`. `decoded` are the bytes that
it hands over to a sink that takes them all. -/
structure Accounts (decoded : Bytes) (onBody : BodyFn σ) (s : σ) (written : ℕ) (out : Pumped σ ρ)
    (moments : List Moment) : Prop where
  valid : ∀ m ∈ moments, m.Valid
  handed : feed onBody s (moments.flatMap Moment.offered) =
    ⟨moments.all (fun m => !m.rejects), moments.flatMap Moment.accepted, out.sink⟩
  stops : ∀ m ∈ moments.dropLast, m.rejects = false
  rejected : (∃ m ∈ moments, m.rejects = true) → out.outcome = .error sinkRejected
  grows : out.written = written + (acceptedBytes moments).length
  next : acceptedBytes moments <+: decoded
  whole : (∃ r, out.outcome = .ok r) → acceptedBytes moments = decoded

section Accounts

variable {decoded decoded' : Bytes} {onBody : BodyFn σ} {s : σ} {written : ℕ} {out : Pumped σ ρ} {out' : Pumped σ τ}
  {moments moments' : List Moment}

theorem Silent.rejects (h : Silent moments) : ∀ m ∈ moments, m.rejects = false := by
  intro m hm
  obtain ⟨r, rfl, -⟩ := h m hm
  rfl

theorem Silent.flatMap_nil (h : Silent moments) {f : Moment → List Bytes} (hf : ∀ r, f (.state r) = []) :
    moments.flatMap f = [] := by
  apply List.flatMap_eq_nil_iff.mpr
  intro m hm
  obtain ⟨r, rfl, -⟩ := h m hm
  exact hf r

theorem all_accepted (h : ∀ m ∈ moments, m.rejects = false) : moments.all (fun m => !m.rejects) = true := by
  apply List.all_eq_true.mpr
  intro m hm
  rw [h m hm]
  rfl

theorem Silent.accounts (h : Silent moments) {outcome : Except Halt ρ} (hok : (∃ r, outcome = .ok r) → decoded = []) :
    Accounts decoded onBody s written ⟨outcome, written, s⟩ moments := by
  have hoffered : moments.flatMap Moment.offered = [] := h.flatMap_nil (fun _ => rfl)
  have haccepted : moments.flatMap Moment.accepted = [] := h.flatMap_nil (fun _ => rfl)
  refine ⟨?_, ?_, fun m hm => h.rejects m (List.mem_of_mem_dropLast hm), ?_, ?_, ?_, ?_⟩
  · intro m hm
    obtain ⟨r, rfl, hr⟩ := h m hm
    exact hr
  · rw [hoffered, haccepted, all_accepted h.rejects]
    rfl
  · rintro ⟨m, hm, hreject⟩
    rw [h.rejects m hm] at hreject
    cases hreject
  · rw [acceptedBytes, haccepted]
    rfl
  · rw [acceptedBytes, haccepted]
    exact List.nil_prefix
  · intro hr
    rw [acceptedBytes, haccepted, hok hr]
    rfl

theorem Silent.accounts_error (h : Silent moments) (halt : Halt) :
    Accounts decoded onBody s written (⟨.error halt, written, s⟩ : Pumped σ ρ) moments := by
  apply h.accounts
  rintro ⟨r, hr⟩
  cases hr

theorem acceptedBytes_append (ms ns : List Moment) :
    acceptedBytes (ms ++ ns) = acceptedBytes ms ++ acceptedBytes ns := by
  rw [acceptedBytes, List.flatMap_append, List.flatten_append]
  rfl

theorem Accounts.append (h : Accounts decoded onBody s written out moments) (hok : ∃ r, out.outcome = .ok r)
    (h' : Accounts decoded' onBody out.sink out.written out' moments') :
    Accounts (decoded ++ decoded') onBody s written out' (moments ++ moments') := by
  have hrejects : ∀ m ∈ moments, m.rejects = false := by
    intro m hm
    by_contra hreject
    obtain ⟨r, hr⟩ := hok
    rw [h.rejected ⟨m, hm, by simpa using hreject⟩] at hr
    cases hr
  have hall := all_accepted hrejects
  have hbytes := acceptedBytes_append moments moments'
  rw [h.whole hok] at hbytes
  refine ⟨?_, ?_, ?_, ?_, ?_, ?_, ?_⟩
  · intro m hm
    rcases List.mem_append.mp hm with hm | hm
    · exact h.valid m hm
    · exact h'.valid m hm
  · have hfed := h.handed
    rw [hall] at hfed
    rw [List.flatMap_append, feed_append, hfed, if_pos rfl, h'.handed, List.all_append, hall, Bool.true_and,
      List.flatMap_append]
  · intro m hm
    rw [List.dropLast_append] at hm
    split_ifs at hm
    · exact h.stops m hm
    · rcases List.mem_append.mp hm with hm | hm
      · exact hrejects m hm
      · exact h'.stops m hm
  · rintro ⟨m, hm, hreject⟩
    rcases List.mem_append.mp hm with hm | hm
    · rw [hrejects m hm] at hreject
      cases hreject
    · exact h'.rejected ⟨m, hm, hreject⟩
  · rw [h'.grows, h.grows, hbytes, List.length_append, h.whole hok, Nat.add_assoc]
  · rw [hbytes]
    exact (List.prefix_append_right_inj decoded).mpr h'.next
  · intro hr
    rw [hbytes, h'.whole hr]

theorem Silent.accounts_append (hq : Silent moments) (h : Accounts decoded onBody s written out moments') :
    Accounts decoded onBody s written out (moments ++ moments') := by
  have hstart : Accounts [] onBody s written (⟨.ok (), written, s⟩ : Pumped σ Unit) moments :=
    hq.accounts (fun _ => rfl)
  exact hstart.append ⟨(), rfl⟩ h

theorem Accounts.fail_behind (h : Accounts decoded onBody s written out moments) (hok : ∃ r, out.outcome = .ok r)
    (hq : Silent moments') (halt : Halt) :
    Accounts decoded onBody s written (⟨.error halt, out.written, out.sink⟩ : Pumped σ τ) (moments ++ moments') := by
  have hend : Accounts [] onBody out.sink out.written (⟨.error halt, out.written, out.sink⟩ : Pumped σ τ) moments' :=
    hq.accounts_error halt
  have hall := h.append hok hend
  rw [List.append_nil] at hall
  exact hall

theorem Accounts.shift (h : Accounts decoded onBody s written out moments) (start : ℕ) :
    Accounts decoded onBody s (start + written) ⟨out.outcome, start + out.written, out.sink⟩ moments :=
  { h with grows := by rw [h.grows, Nat.add_assoc] }

theorem Accounts.fail (h : Accounts decoded onBody s written out moments) {halt : Halt}
    (herror : out.outcome = .error halt) (hdecoded : decoded <+: decoded') :
    Accounts decoded' onBody s written (⟨.error halt, out.written, out.sink⟩ : Pumped σ τ) moments where
  valid := h.valid
  handed := h.handed
  stops := h.stops
  rejected := fun hm => by
    have hhalt := h.rejected hm
    rw [herror] at hhalt
    cases hhalt
    rfl
  grows := h.grows
  next := h.next.trans hdecoded
  whole := by
    rintro ⟨r, hr⟩
    cases hr

theorem offered_buffered (r : Reader) {n : ℕ} (hn : n ≤ r.bufferedSize) :
    (r.mBuffer.drop r.mOffset).take n = r.buffered.take n := by
  unfold Reader.bufferedSize at hn
  rw [Reader.buffered, List.drop_take, List.take_take, Nat.min_eq_left hn]

variable {r : Reader} {n : ℕ} {t : σ}

theorem call_valid (h : r.Valid) (hpos : 0 < n) (hn : n ≤ r.bufferedSize) (accepted : Bool) :
    (Moment.call r n accepted).Valid := by
  have hoffset := h.1
  unfold Reader.bufferedSize at hn
  exact ⟨h, hpos, by omega⟩

theorem call_accepted (h : r.Valid) (hpos : 0 < n) (hn : n ≤ r.bufferedSize)
    (hcall : onBody s (r.buffered.take n) = (true, t)) (written : ℕ) :
    Accounts (r.buffered.take n) onBody s written (⟨.ok (), written + n, t⟩ : Pumped σ Unit) [.call r n true] := by
  have hbytes : acceptedBytes [.call r n true] = r.buffered.take n := by
    rw [← offered_buffered r hn]
    simp [acceptedBytes, Moment.accepted, Moment.offered]
  have hlength : (r.buffered.take n).length = n := by
    rw [List.length_take, Reader.buffered_length, Nat.min_eq_left hn]
  refine ⟨?_, ?_, by simp, ?_, ?_, ?_, fun _ => hbytes⟩
  · simpa using call_valid h hpos hn true
  · simp [Moment.offered, Moment.accepted, Moment.rejects, offered_buffered r hn, feed, hcall]
  · simp [Moment.rejects]
  · rw [hbytes, hlength]
  · rw [hbytes]

theorem call_rejected (h : r.Valid) (hpos : 0 < n) (hn : n ≤ r.bufferedSize)
    (hcall : onBody s (r.buffered.take n) = (false, t)) (written : ℕ) (decoded : Bytes) :
    Accounts decoded onBody s written (⟨.error sinkRejected, written, t⟩ : Pumped σ ρ) [.call r n false] := by
  refine ⟨?_, ?_, by simp, fun _ => rfl, ?_, ?_, ?_⟩
  · simpa using call_valid h hpos hn false
  · simp [Moment.offered, Moment.accepted, Moment.rejects, offered_buffered r hn, feed, hcall]
  · simp [acceptedBytes, Moment.accepted]
  · simp [acceptedBytes, Moment.accepted]
  · rintro ⟨r, hr⟩
    cases hr

end Accounts

theorem pumpPlain_accounts {r : Reader} (h : r.Valid) (want : ℤ) (onBody : BodyFn σ) (s : σ) (written : ℕ) :
    Accounts (r.source.plain want written).1 onBody s written (pumpPlain r want onBody s written)
      (pumpPlainMoments r want onBody s written) := by
  fun_induction pumpPlainMoments r want onBody s written with
  | case1 r s written hw halt hr =>
    rw [pumpPlain_error onBody s hw hr]
    exact (Silent.nil.cons h).accounts_error halt
  | case2 r s written hw r' hr =>
    rw [pumpPlain_closed onBody s hw hr, (Reader.refill_closed hr).1, Source.plain_closed want written hw]
    exact ((Silent.nil.cons (Reader.refill_valid h hr)).cons h).accounts (fun _ => rfl)
  | case3 r s written hw r' hr chunk ih =>
    obtain ⟨hpos, hle, hlen, hsource⟩ := Reader.source_slice hr hw
    have hvalid := Reader.refill_valid h hr
    have hsame := (Reader.refill_source hr).1
    have hdata : r.source.data.take chunk = r'.buffered.take chunk := by
      rw [← hsame, Reader.source, List.take_append_of_le_length (by rw [Reader.buffered_length]; exact hle)]
    have hstep := Source.plain_step r.source want written chunk hlen
      (by unfold chunk Reader.slice; split_ifs <;> omega)
    rw [hdata, ← hsource] at hstep
    rw [pumpPlain_slice onBody s hw hr]
    rw [← List.singleton_append]
    refine (Silent.nil.cons h).accounts_append ?_
    rcases hcall : onBody s (r'.buffered.take chunk) with ⟨_ | _, t⟩
    · exact call_rejected hvalid hpos hle hcall written _
    · rw [hstep]
      exact (call_accepted hvalid hpos hle hcall written).append ⟨(), rfl⟩
        (ih t (Reader.consume_valid hvalid hle))
  | case4 r s written hw =>
    rw [pumpPlain_met onBody s hw, Source.plain_met r.source want written hw]
    exact (Silent.nil.cons h).accounts (fun _ => rfl)

theorem pumpPlain_short {r : Reader} {want : ℤ} (hwant : 0 ≤ want) {onBody : BodyFn σ} {s : σ} {written : ℕ}
    {halt : Halt} (h : (pumpPlain r want onBody s written).outcome = .error halt) :
    ((pumpPlain r want onBody s written).written : ℤ) < want := by
  fun_induction pumpPlain r want onBody s written with
  | case1 r s written hw halt' hr => exact hw.resolve_left (not_lt.mpr hwant)
  | case2 r s written hw r1 hr hneg => exact absurd hneg (not_lt.mpr hwant)
  | case3 r s written hw r1 hr hneg => exact hw.resolve_left hneg
  | case4 r s written hw r1 hr chunk t hb => exact hw.resolve_left (not_lt.mpr hwant)
  | case5 r s written hw r1 hr chunk t hb ih => exact ih h
  | case6 r s written hw => cases h

theorem pumpPlain_state {r r' : Reader} {want : ℤ} {onBody : BodyFn σ} {s : σ} {written : ℕ}
    (h : (pumpPlain r want onBody s written).outcome = .ok r') :
    Moment.state r' ∈ pumpPlainMoments r want onBody s written := by
  fun_induction pumpPlainMoments r want onBody s written with
  | case1 r s written hw halt hr =>
    rw [pumpPlain_error onBody s hw hr] at h
    cases h
  | case2 r s written hw r1 hr =>
    rw [pumpPlain_closed onBody s hw hr] at h
    split_ifs at h
    cases h
    exact List.mem_cons_of_mem _ List.mem_cons_self
  | case3 r s written hw r1 hr chunk ih =>
    rw [pumpPlain_slice onBody s hw hr] at h
    rcases hcall : onBody s (r1.buffered.take chunk) with ⟨_ | _, t⟩
    · rw [hcall] at h
      cases h
    · rw [hcall] at h
      exact List.mem_cons_of_mem _ (List.mem_cons_of_mem _ (ih t h))
  | case4 r s written hw =>
    rw [pumpPlain_met onBody s hw] at h
    cases h
    exact List.mem_cons_self

theorem Source.chunked_front {source rest : Source} {line : Bytes} (h : source.readLine = .ok (line, rest))
    (hs : (strtoll (chunkHeader line) 16).2 ≠ 0) (hp : 0 < (strtoll (chunkHeader line) 16).1) :
    (rest.plain (strtoll (chunkHeader line) 16).1 0).1 <+: source.chunked.1 := by
  cases hd : (rest.plain (strtoll (chunkHeader line) 16).1 0).2 with
  | error halt => rw [Source.chunked_cut h hs hp hd]
  | ok rest2 =>
    cases he : rest2.readLine with
    | error halt => rw [Source.chunked_unended h hs hp hd he]
    | ok p =>
      rw [Source.chunked_chunk h hs hp hd he]
      exact List.prefix_append _ _

theorem pumpChunked_accounts {r : Reader} (h : r.Valid) (onBody : BodyFn σ) (s : σ) (written : ℕ) :
    Accounts r.source.chunked.1 onBody s written (pumpChunked r onBody s written)
      (pumpChunkedMoments r onBody s) := by
  fun_induction pumpChunkedMoments r onBody s generalizing written with
  | case1 r s ih =>
    refine (readLineMoments_silent h).accounts_append ?_
    split
    · rename_i halt h1
      rw [pumpChunked_error onBody s written h1]
      exact Silent.nil.accounts_error halt
    · rename_i line r1 h1
      have hvalid := Reader.readLine_valid h h1
      have hline := Reader.readLine_ok h1
      dsimp only
      split_ifs with hbad hlast
      · rw [pumpChunked_malformed onBody s written h1 hbad]
        exact Silent.nil.accounts_error _
      · rw [pumpChunked_last onBody s written h1 (by omega) hlast,
          Source.chunked_last hline (by omega) hlast]
        exact (trailersMoments_silent hvalid).accounts (fun _ => rfl)
      · have hsize : (strtoll (chunkHeader line) 16).2 ≠ 0 := by omega
        have hmore : 0 < (strtoll (chunkHeader line) 16).1 := by omega
        have hplain := (pumpPlain_accounts hvalid (strtoll (chunkHeader line) 16).1 onBody s 0).shift written
        rw [pumpChunked_chunk onBody s written h1 hsize hmore]
        split
        · rename_i halt h2
          rw [h2, List.append_nil]
          exact hplain.fail h2 (Source.chunked_front hline hsize hmore)
        · rename_i r2 h2
          have hvalid2 := pumpPlain_valid hvalid h2
          have hsource := pumpPlain_source h2
          rw [h2]
          dsimp only
          split
          · rename_i halt h3
            rw [h3, Source.chunked_unended hline hsize hmore hsource (Reader.readLine_error h3), List.append_nil]
            exact hplain.fail_behind ⟨r2, h2⟩ (readLineMoments_silent hvalid2) halt
          · rename_i line' r3 h3
            rw [h3, Source.chunked_chunk hline hsize hmore hsource (Reader.readLine_ok h3)]
            have hrest := ih line r1 h1 r2 h2 line' r3 h3 (Reader.readLine_valid hvalid2 h3)
            exact hplain.append ⟨r2, h2⟩ ((readLineMoments_silent hvalid2).accounts_append (hrest _))

structure Exact (r : Reader) (want : ℤ) (written : ℕ) (out : Pumped σ Reader) (moments : List Moment) : Prop where
  ok_iff : (∃ r', out.outcome = .ok r') ↔ (acceptedBytes moments).length = (want - written).toNat
  behind : ∀ r', out.outcome = .ok r' → r.source = ⟨acceptedBytes moments ++ r'.source.data, r'.source.stop⟩
  state : ∀ r', out.outcome = .ok r' → Moment.state r' ∈ moments

theorem pumpPlain_exact {r : Reader} (h : r.Valid) {want : ℤ} (hwant : 0 ≤ want) (onBody : BodyFn σ) (s : σ)
    (written : ℕ) :
    Exact r want written (pumpPlain r want onBody s written) (pumpPlainMoments r want onBody s written) := by
  have haccounts := pumpPlain_accounts h want onBody s written
  refine ⟨⟨?_, ?_⟩, ?_, fun r' hr => pumpPlain_state hr⟩
  · rintro ⟨r', hr⟩
    rw [haccounts.whole ⟨r', hr⟩]
    exact (Source.plain_taken hwant (pumpPlain_source hr)).2.1
  · intro hlength
    cases hout : (pumpPlain r want onBody s written).outcome with
    | ok r' => exact ⟨r', rfl⟩
    | error halt =>
      have hshort := pumpPlain_short hwant hout
      rw [haccounts.grows, hlength] at hshort
      omega
  · intro r' hr
    obtain ⟨hdata, -, hstop⟩ := Source.plain_taken hwant (pumpPlain_source hr)
    rw [haccounts.whole ⟨r', hr⟩, hstop, ← hdata]

theorem pumps_account {r : Reader} (h : r.Reached) (onBody : BodyFn σ) (s : σ) (written : ℕ) :
    (∀ want : ℤ,
      Accounts (r.source.plain want written).1 onBody s written (pumpPlain r want onBody s written)
          (pumpPlainMoments r want onBody s written) ∧
        (0 ≤ want →
          Exact r want written (pumpPlain r want onBody s written) (pumpPlainMoments r want onBody s written))) ∧
      Accounts r.source.chunked.1 onBody s written (pumpChunked r onBody s written)
        (pumpChunkedMoments r onBody s) :=
  ⟨fun want => ⟨pumpPlain_accounts h.valid want onBody s written,
      fun hwant => pumpPlain_exact h.valid hwant onBody s written⟩,
    pumpChunked_accounts h.valid onBody s written⟩

theorem pumps_account_two :
    Accounts (ascii "ab") (fun n piece => (true, n + piece.length)) 0 0
      (pumpPlain (Reader.new [⟨false, .data ⟨ascii "abc", by decide, by decide⟩⟩] false 1000) 2
        (fun n piece => (true, n + piece.length)) 0 0)
      (pumpPlainMoments (Reader.new [⟨false, .data ⟨ascii "abc", by decide, by decide⟩⟩] false 1000) 2
        (fun n piece => (true, n + piece.length)) 0 0) := by
  have hdecoded : ((Reader.new [⟨false, .data ⟨ascii "abc", by decide, by decide⟩⟩] false 1000).source.plain 2 0).1 =
      ascii "ab" := by decide +kernel
  rw [← hdecoded]
  exact ((pumps_account (.new _ false 1000) (fun n piece => (true, n + piece.length)) 0 0).1 2).1

end BinderDownload.Http
