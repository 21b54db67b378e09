import BinderDownload.Http.Segmentation
import BinderDownload.Http.Get

namespace BinderDownload.Http

open Text

structure Collected where
  body : Bytes := []
  overflowed : Bool := false

def Collected.append (maxBytes : ℕ) (s : Collected) (data : Bytes) : Bool × Collected :=
  if maxBytes < s.body.length + data.length then (false, { s with overflowed := true })
  else (true, { s with body := s.body ++ data })

def getString (url : Bytes) (maxBytes : ℕ) (net : Net) : Option (Result × Bytes) :=
  let (result, s) := get { url } { onHeaders := none, onBody := Collected.append maxBytes } false net {}
  result.map (fun result =>
    if s.overflowed then
      ({ result with error := .tooLarge, message := ascii "response exceeds " ++ decimal maxBytes ++ ascii " bytes" },
        [])
    else (result, s.body))

def gather : Callbacks Bytes where
  onHeaders := none
  onBody := fun s data => (true, s ++ data)

def getAll (url : Bytes) (net : Net) : Option Result × Bytes := get { url } gather false net []

theorem foldl_gather (s : Bytes) (pieces : List Bytes) : pieces.foldl (· ++ ·) s = s ++ pieces.flatten := by
  induction pieces generalizing s with
  | nil => simp
  | cons piece pieces ih => rw [List.foldl_cons, ih, List.flatten_cons, List.append_assoc]

theorem feed_append_pieces (maxBytes : ℕ) (pieces : List Bytes) (s : Collected) (hs : s.body.length ≤ maxBytes) :
    if s.body.length + pieces.flatten.length ≤ maxBytes then
      feed (Collected.append maxBytes) s pieces = ⟨true, pieces, { s with body := s.body ++ pieces.flatten }⟩
    else (feed (Collected.append maxBytes) s pieces).done = false ∧
      (feed (Collected.append maxBytes) s pieces).state.overflowed = true := by
  induction pieces generalizing s with
  | nil =>
    rw [if_pos (by simpa using hs)]
    simp [feed]
  | cons piece pieces ih =>
    rw [feed, List.flatten_cons, List.length_append]
    by_cases hover : maxBytes < s.body.length + piece.length
    · rw [if_neg (by omega)]
      simp [Collected.append, hover]
    · have h := ih { s with body := s.body ++ piece } (by rw [List.length_append]; omega)
      simp only [List.length_append, Nat.add_assoc] at h
      simp only [Collected.append, if_neg hover]
      split_ifs at h ⊢ with hle
      · rw [h, List.append_assoc]
      · exact h

theorem deliver_append (reply : Reply) (maxBytes : ℕ) (pieces : List Bytes) :
    let (attempt, s) := reply.deliver pieces { onHeaders := none, onBody := Collected.append maxBytes } {}
    let (whole, received) := reply.deliver pieces gather []
    if received.length ≤ maxBytes then attempt = whole ∧ s = { body := received }
    else attempt.isSome ∧ s.overflowed = true := by
  cases ha : reply.announced with
  | none => simp [Reply.deliver, ha]
  | some info =>
    have hheaders : ({ onHeaders := none, onBody := Collected.append maxBytes } : Callbacks Collected).headers {} info =
        (true, {}) := rfl
    have hall := feed_total (f := gather.onBody) (g := fun s data => s ++ data) (fun _ _ => rfl) [] pieces
    have hcap := feed_append_pieces maxBytes pieces {} (Nat.zero_le _)
    rw [Reply.deliver_accepted pieces ha hheaders, Reply.deliver_accepted pieces ha rfl, hall, foldl_gather]
    simp only [List.length_nil, Nat.zero_add, List.nil_append, if_true] at hcap ⊢
    by_cases hle : pieces.flatten.length ≤ maxBytes
    · rw [if_pos hle] at hcap ⊢
      rw [hcap]
      exact ⟨rfl, rfl⟩
    · rw [if_neg hle] at hcap ⊢
      exact ⟨by simp [hcap.1], hcap.2⟩

def SameStreams (net net' : Net) : Prop :=
  ∀ hop, net.opened hop = net'.opened hop ∨
    ∃ sends ticks ticks', net.opened hop = .connected ⟨sends, ticks⟩ ∧ net'.opened hop = .connected ⟨sends, ticks'⟩ ∧
      ∀ idleTimeoutMs, Source.ofTicks false idleTimeoutMs ticks = Source.ofTicks false idleTimeoutMs ticks'

theorem SameStreams.reply {net net' : Net} (h : SameStreams net net') (request : Request) :
    net.reply request false = net'.reply request false := by
  have hopened (hop : ℕ) (url : Url) (request : Request) :
      (net.opened hop).reply url request false = (net'.opened hop).reply url request false := by
    rcases h hop with heq | ⟨sends, ticks, ticks', heq, heq', hsource⟩
    · rw [heq]
    · rw [heq, heq', Opened.reply, Opened.reply, hsource]
  have hfrom (left hop : ℕ) (current : Bytes) :
      net.replyFrom request false hop current left = net'.replyFrom request false hop current left := by
    induction left generalizing hop current with
    | zero => rfl
    | succ left ih =>
      simp only [Net.replyFrom, Bool.false_and, Bool.false_eq_true, if_false, hopened, ih]
  exact hfrom _ 0 _

theorem getAll_reply (url : Bytes) (net net' : Net) (h : SameStreams net net') : getAll url net' = getAll url net := by
  obtain ⟨ps, -, hps, hp⟩ := get_deliver { url } false net
  obtain ⟨qs, -, hqs, hq⟩ := get_deliver { url } false net'
  rw [← h.reply] at hqs hq
  rw [getAll, getAll, hp gather, hq gather]
  have hsame : ((net.reply { url } false).deliver qs gather []) = ((net.reply { url } false).deliver ps gather []) := by
    cases ha : (net.reply { url } false).announced with
    | none => simp [Reply.deliver, ha]
    | some info =>
      have hall (pieces : List Bytes) := feed_total (f := gather.onBody) (g := fun s data => s ++ data)
        (fun _ _ => rfl) [] pieces
      rw [Reply.deliver_accepted qs ha rfl, Reply.deliver_accepted ps ha rfl, hall, hall, foldl_gather, foldl_gather,
        hqs, hps]
  rw [hsame]

theorem getString_spec (url : Bytes) (maxBytes : ℕ) (net : Net) :
    (getString url maxBytes net).map (fun end_ => (end_.1.error, end_.2)) =
      if maxBytes < (getAll url net).2.length then some (.tooLarge, [])
      else (getAll url net).1.map (fun result => (result.error, (getAll url net).2)) := by
  obtain ⟨pieces, -, -, hp⟩ := get_deliver { url } false net
  have hside := deliver_append (net.reply { url } false) maxBytes pieces
  rw [getAll, hp gather, getString, hp]
  generalize (net.reply { url } false).deliver pieces
    { onHeaders := none, onBody := Collected.append maxBytes } ({} : Collected) = capped at hside ⊢
  generalize (net.reply { url } false).deliver pieces gather [] = all at hside ⊢
  obtain ⟨attempt, s⟩ := capped
  obtain ⟨whole, received⟩ := all
  dsimp only at hside ⊢
  by_cases hle : received.length ≤ maxBytes
  · rw [if_pos hle] at hside
    obtain ⟨rfl, rfl⟩ := hside
    rw [if_neg (by omega)]
    cases attempt <;> rfl
  · rw [if_neg hle] at hside
    obtain ⟨hsome, hover⟩ := hside
    obtain ⟨result, rfl⟩ := Option.isSome_iff_exists.mp hsome
    rw [if_pos (by omega)]
    simp [hover]

theorem getString_capped (url : Bytes) (maxBytes : ℕ) (net : Net) :
    (getString url maxBytes net).map (fun end_ => (end_.1.error, end_.2)) =
        (if maxBytes < (getAll url net).2.length then some (.tooLarge, [])
        else (getAll url net).1.map (fun result => (result.error, (getAll url net).2))) ∧
      (∀ result body, getString url maxBytes net = some (result, body) → result.error = .ok →
        (getAll url net).1.map Result.error = some .ok ∧ body = (getAll url net).2 ∧ body.length ≤ maxBytes) ∧
      ∀ net', SameStreams net net' → (getAll url net').2 = (getAll url net).2 ∧
        (getString url maxBytes net').map (fun end_ => (end_.1.error, end_.2)) =
          (getString url maxBytes net).map (fun end_ => (end_.1.error, end_.2)) := by
  have hspec := getString_spec url maxBytes net
  refine ⟨hspec, fun result body hend hok => ?_, fun net' hsame => ?_⟩
  · rw [hend, Option.map_some, hok] at hspec
    split_ifs at hspec with hover
    · cases hspec
    · cases hall : (getAll url net).1 with
      | none =>
        rw [hall] at hspec
        cases hspec
      | some whole =>
        rw [hall, Option.map_some, Option.some.injEq, Prod.mk.injEq] at hspec
        obtain ⟨herror, rfl⟩ := hspec
        exact ⟨by rw [Option.map_some, herror], rfl, by omega⟩
  · have hall := getAll_reply url net net' hsame
    exact ⟨by rw [hall], by rw [hspec, getString_spec url maxBytes net', hall]⟩

theorem getString_capped_two :
    let head := ascii "HTTP/1.1 200 OK\r\nContent-Length: 2\r\n\r\n"
    let h : Segment := ⟨head, by decide +kernel, by decide +kernel⟩
    let b : Segment := ⟨ascii "h", by decide, by decide⟩
    let c : Segment := ⟨ascii "i", by decide, by decide⟩
    let hbc : Segment := ⟨head ++ ascii "hi", by decide +kernel, by decide +kernel⟩
    let net : List Tick → Net := fun ticks => ⟨fun _ => .connected ⟨[.wrote 4096], ticks⟩, fun _ => false⟩
    let run := fun ticks => (getString (ascii "http://h/") 2 (net ticks)).map (fun end_ => (end_.1.error, end_.2))
    run [⟨false, .data h⟩, ⟨false, .data b⟩, ⟨false, .data c⟩] = run [⟨false, .data hbc⟩] ∧
      run [⟨false, .data hbc⟩] = some (.ok, ascii "hi") := by
  intro head h b c hbc net run
  have hsame : SameStreams (net [⟨false, .data hbc⟩]) (net [⟨false, .data h⟩, ⟨false, .data b⟩, ⟨false, .data c⟩]) := by
    refine fun hop => .inr ⟨_, _, _, rfl, rfl, fun idleTimeoutMs => ?_⟩
    simp [Source.ofTicks, hbc, h, b, c]
    decide
  refine ⟨((getString_capped (ascii "http://h/") 2 _).2.2 _ hsame).2, ?_⟩
  decide +kernel

end BinderDownload.Http
