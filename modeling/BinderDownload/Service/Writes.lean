import BinderDownload.Service.HttpService

namespace BinderDownload.HttpService

open Text Http Files

inductive Act
  | wrote (bytes : Bytes)
  | sent (message : Progress)

def bytesOf (acts : List Act) : Bytes :=
  acts.flatMap (fun act => match act with
    | .wrote bytes => bytes
    | .sent _ => [])

def sentOf (acts : List Act) : List Progress :=
  acts.filterMap (fun act => match act with
    | .wrote _ => none
    | .sent message => some message)

def writeActs (data : Bytes) (writes : List WriteResult) : List Act :=
  if data = [] then []
  else match writes with
    | [] => [.wrote data]
    | .wrote n :: writes => .wrote (data.take n) :: writeActs (data.drop n) writes
    | .interrupted :: writes => writeActs data writes
    | .stopped _ :: _ => []

def Sink.news (s t : Sink) : List Act := (t.sent.drop s.sent.length).map .sent

/-- The callbacks of `fetchToFd`, with a list of what they do. -/
def Sink.logged (world : World) (resumeFrom : ℤ) (callback : Bool) : Callbacks (Sink × List Act) where
  onHeaders := some (fun s info =>
    ((s.1.onHeaders world resumeFrom callback info).1, (s.1.onHeaders world resumeFrom callback info).2,
      s.2 ++ s.1.news (s.1.onHeaders world resumeFrom callback info).2))
  onBody := fun s data =>
    ((s.1.onBody callback data).1, (s.1.onBody callback data).2,
      s.2 ++ (writeActs data s.1.writes ++ s.1.news (s.1.onBody callback data).2))

section Acts

variable {acts : List Act}

@[simp] theorem bytesOf_append (acts acts' : List Act) : bytesOf (acts ++ acts') = bytesOf acts ++ bytesOf acts' :=
  List.flatMap_append

@[simp] theorem sentOf_append (acts acts' : List Act) : sentOf (acts ++ acts') = sentOf acts ++ sentOf acts' :=
  List.filterMap_append

@[simp] theorem bytesOf_sent (messages : List Progress) : bytesOf (messages.map .sent) = [] := by
  simp [bytesOf]

@[simp] theorem bytesOf_news (s t : Sink) : bytesOf (s.news t) = [] := bytesOf_sent _

end Acts

theorem writeActs_spec (file : File) (data : Bytes) (writes : List WriteResult) :
    sentOf (writeActs data writes) = [] ∧ bytesOf (writeActs data writes) <+: data ∧
      (writeFully file data writes).file = file.write (bytesOf (writeActs data writes)) ∧
      ((writeFully file data writes).ok = true → bytesOf (writeActs data writes) = data) := by
  fun_induction writeFully file data writes with
  | case1 writes file =>
    have hnil : writeActs [] writes = [] := by rw [writeActs.eq_def, if_pos rfl]
    rw [hnil]
    exact ⟨rfl, List.nil_prefix, by rw [bytesOf, List.flatMap_nil, File.write_nil], fun _ => rfl⟩
  | case2 file data hne =>
    have hone : writeActs data [] = [.wrote data] := by simp [writeActs, hne]
    have hbytes : bytesOf [.wrote data] = data := by simp [bytesOf]
    rw [hone, hbytes]
    exact ⟨rfl, List.prefix_rfl, rfl, fun _ => rfl⟩
  | case3 file data hne n writes ih =>
    obtain ⟨hsent, hpre, hfile, hok⟩ := ih
    have hcons : writeActs data (.wrote n :: writes) = [.wrote (data.take n)] ++ writeActs (data.drop n) writes := by
      rw [writeActs, if_neg hne]
      rfl
    have hbytes : bytesOf [.wrote (data.take n)] = data.take n := by simp [bytesOf]
    rw [hcons, sentOf_append, bytesOf_append, hbytes, hsent]
    refine ⟨rfl, ?_, by rw [hfile, File.write_append], fun h => ?_⟩
    · conv => rhs; rw [← List.take_append_drop n data]
      exact (List.prefix_append_right_inj _).mpr hpre
    · rw [hok h, List.take_append_drop]
  | case4 file data hne writes ih =>
    rw [writeActs, if_neg hne]
    exact ih
  | case5 file data hne error writes =>
    have hnil : writeActs data (.stopped error :: writes) = [] := by simp [writeActs, hne]
    rw [hnil]
    exact ⟨rfl, List.nil_prefix, by rw [bytesOf, List.flatMap_nil, File.write_nil], by simp⟩

theorem Sink.onBody_acts (callback : Bool) (s : Sink) (data : Bytes) :
    (s.onBody callback data).2.file = s.file.write (bytesOf (writeActs data s.writes)) ∧
      ((s.onBody callback data).1 = true → bytesOf (writeActs data s.writes) = data ∧
        (s.onBody callback data).2.written = s.written + data.length) := by
  obtain ⟨-, -, hfile, hok⟩ := writeActs_spec s.file data s.writes
  unfold onBody
  by_cases hw : (writeFully s.file data s.writes).ok = false
  · simp [hw, hfile]
  · simp only [hw]
    split_ifs <;> simp [hfile, hok (by simpa using hw)]

theorem Sink.feed_acts (world : World) (resumeFrom : ℤ) (callback : Bool) (s : Sink) (acts : List Act)
    (pieces : List Bytes) :
    ∃ taken, bytesOf (feed (logged world resumeFrom callback).onBody (s, acts) pieces).state.2 = bytesOf acts ++ taken ∧
      taken <+: pieces.flatten ∧
      (feed (logged world resumeFrom callback).onBody (s, acts) pieces).state.1.file = s.file.write taken ∧
      ((feed (logged world resumeFrom callback).onBody (s, acts) pieces).done = true → taken = pieces.flatten ∧
        (feed (logged world resumeFrom callback).onBody (s, acts) pieces).state.1.written =
          s.written + pieces.flatten.length) := by
  induction pieces generalizing s acts with
  | nil => exact ⟨[], by simp [feed], List.nil_prefix, by rw [File.write_nil]; rfl, fun _ => ⟨rfl, rfl⟩⟩
  | cons piece pieces ih =>
    obtain ⟨-, hpre, -, -⟩ := writeActs_spec s.file piece s.writes
    obtain ⟨hfile, hok⟩ := s.onBody_acts callback piece
    have hstep : (logged world resumeFrom callback).onBody (s, acts) piece =
        ((s.onBody callback piece).1, (s.onBody callback piece).2,
          acts ++ (writeActs piece s.writes ++ s.news (s.onBody callback piece).2)) := rfl
    rw [feed, hstep]
    rcases hb : s.onBody callback piece with ⟨_ | _, t⟩
    · rw [hb] at hfile
      exact ⟨bytesOf (writeActs piece s.writes), by simp, hpre.trans (by simp), hfile, by simp⟩
    · rw [hb] at hfile hok
      obtain ⟨taken, hbytes, hpre', hfile', hdone⟩ := ih t (acts ++ (writeActs piece s.writes ++ s.news t))
      obtain ⟨hall, hwritten⟩ := hok rfl
      rw [hall] at hfile
      refine ⟨piece ++ taken, ?_, ?_, ?_, ?_⟩
      · dsimp only
        rw [hbytes]
        simp [hall]
      · rw [List.flatten_cons]
        exact (List.prefix_append_right_inj _).mpr hpre'
      · dsimp only
        rw [hfile', hfile, File.write_append]
      · intro h
        obtain ⟨htaken, hcount⟩ := hdone h
        dsimp only at hwritten ⊢
        rw [htaken, hcount, hwritten, List.flatten_cons, List.length_append, Nat.add_assoc]
        exact ⟨rfl, rfl⟩

theorem Sink.feed_logged (world : World) (resumeFrom : ℤ) (callback : Bool) (s : Sink) (acts : List Act)
    (pieces : List Bytes) :
    feed (onBody callback) s pieces =
      ⟨(feed (logged world resumeFrom callback).onBody (s, acts) pieces).done,
        (feed (logged world resumeFrom callback).onBody (s, acts) pieces).taken,
        (feed (logged world resumeFrom callback).onBody (s, acts) pieces).state.1⟩ :=
  feed_part Prod.fst (fun _ _ => rfl) (s, acts) pieces

end BinderDownload.HttpService
