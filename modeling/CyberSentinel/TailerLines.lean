import CyberSentinel.Tailer

/-!
# The lines that a tailer returns

A read works on its own bytes: it decodes them alone, takes the carriage return off a line only
where it has both ends of it, and forgets what it holds of a line when that becomes too long. So
what is returned depends on where the reads end. `ReadsWhole` says which ends do no harm, and in a
run of such reads what is returned is what the file says.
-/

namespace CyberSentinel.Logs

open Texts Lines Utf8

def unfinished (bytes : List UInt8) : List UInt8 := (cut newline bytes).2

/-- A whole line as it is shown: without its carriage return, decoded. -/
def decodeLine (line : List UInt8) : Text := lossy (stripLast Utf8.carriageReturn line)

def keep (lines : List Text) : List Text := lines.filter (fun line => byteLength line ≤ maxLine)

def shownLines (bytes : List UInt8) : List Text := keep ((cut newline bytes).1.map decodeLine)

theorem byteLength_append (u v : Text) : byteLength (u ++ v) = byteLength u + byteLength v := by
  simp [byteLength, Texts.size]

theorem takePiece_line (r : Reading) (line : Text) :
    (r.takePiece (line ++ ['\n'])).pending = [] ∧
      (r.takePiece (line ++ ['\n'])).lines = r.lines ++ keep
      [r.pending ++ stripLast '\r' line] := by
  rw [Reading.takePiece, if_pos List.getLast?_concat, List.dropLast_concat]
  dsimp only
  split_ifs with hlong
  · refine ⟨rfl, ?_⟩
    rw [keep, List.filter_cons_of_neg (by simpa using hlong), List.filter_nil, List.append_nil]
  · refine ⟨rfl, ?_⟩
    rw [keep, List.filter_cons_of_pos (by simpa using hlong), List.filter_nil]

theorem takePiece_rest {r : Reading} {rest : Text} (hrest : '\n' ∉ rest)
    (hfits : byteLength (r.pending ++ rest) ≤ maxLine) :
    (r.takePiece rest).pending = r.pending ++ rest ∧ (r.takePiece rest).lines = r.lines := by
  have hlast : ¬ rest.getLast? = some '\n' := fun h => hrest (List.mem_of_getLast? h)
  rw [byteLength_append] at hfits
  rw [Reading.takePiece, if_neg hlast, if_neg (Nat.not_lt.2 hfits)]
  exact ⟨rfl, rfl⟩

theorem foldl_takePiece_lines (lines : List Text) {r : Reading} (hr : r.pending = []) :
    ((lines.map (· ++ ['\n'])).foldl Reading.takePiece r).pending = [] ∧
      ((lines.map (· ++ ['\n'])).foldl Reading.takePiece r).lines =
        r.lines ++ keep (lines.map (stripLast '\r')) := by
  induction lines generalizing r with
  | nil => exact ⟨hr, (List.append_nil _).symm⟩
  | cons line lines ih =>
    obtain ⟨hpending, hlines⟩ := takePiece_line r line
    obtain ⟨hpending', hlines'⟩ := ih hpending
    rw [List.map_cons, List.foldl_cons]
    refine ⟨hpending', hlines'.trans ?_⟩
    rw [hlines, hr, List.nil_append, List.map_cons, List.append_assoc]
    rw [keep, keep, keep, ← List.filter_append]
    rfl

def completed (pending : Text) : List Text → List Text
  | [] => []
  | line :: lines => (pending ++ stripLast '\r' line) :: lines.map (stripLast '\r')

theorem foldl_takePiece_completed (lines : List Text) (r : Reading) :
    ((lines.map (· ++ ['\n'])).foldl Reading.takePiece r).pending =
        (if lines = [] then r.pending else []) ∧
      ((lines.map (· ++ ['\n'])).foldl Reading.takePiece r).lines =
        r.lines ++ keep (completed r.pending lines) := by
  cases lines with
  | nil => exact ⟨rfl, (List.append_nil _).symm⟩
  | cons line lines =>
    obtain ⟨hpending, hlines⟩ := takePiece_line r line
    obtain ⟨hpending', hlines'⟩ := foldl_takePiece_lines lines hpending
    rw [List.map_cons, List.foldl_cons, if_neg (List.cons_ne_nil _ _)]
    refine ⟨hpending', hlines'.trans ?_⟩
    rw [hlines, List.append_assoc, keep, keep, keep, ← List.filter_append]
    rfl

/-- What a text does to a reader that holds some of its first line. -/
theorem foldl_takePiece {text : Text} {r : Reading}
    (hfits : byteLength (extend r.pending (cut '\n' text)).2 ≤ maxLine) :
    ((splitInclusive '\n' text).foldl Reading.takePiece r).pending =
        (extend r.pending (cut '\n' text)).2 ∧
      ((splitInclusive '\n' text).foldl Reading.takePiece r).lines =
        r.lines ++ keep (completed r.pending (cut '\n' text).1) := by
  have hnewline : '\n' ∉ (cut '\n' text).2 := not_mem_cut_rest text
  obtain ⟨hpending, hlines⟩ := foldl_takePiece_completed (cut '\n' text).1 r
  rw [splitInclusive_eq, List.foldl_append]
  generalize ((cut '\n' text).1.map (· ++ ['\n'])).foldl Reading.takePiece r =
    held at hpending hlines ⊢
  have hextend : (extend r.pending (cut '\n' text)).2 = held.pending ++ (cut '\n' text).2 := by
    rw [hpending]
    obtain ⟨_ | ⟨line, lines⟩, rest⟩ := cut '\n' text <;> rfl
  rw [hextend] at hfits ⊢
  split_ifs with hrest
  · rw [hrest, List.append_nil]
    exact ⟨rfl, hlines⟩
  · obtain ⟨hheld, hsame⟩ := takePiece_rest hnewline hfits
    exact ⟨hheld, hsame.trans hlines⟩

/-- Behind what is unfinished, more bytes cut no sequence and no line end, and leave no more
unfinished than can be held. -/
structure Whole (line more : List UInt8) : Prop where
  sequence : ¬ CutsSequence line more
  lineEnd : ¬ (line.getLast? = some Utf8.carriageReturn ∧ more.head? = some newline)
  fits : byteLength (lossy (extend line (cut newline more)).2) ≤ maxLine

instance (line more : List UInt8) : Decidable (Whole line more) :=
  decidable_of_iff (¬ CutsSequence line more ∧
    ¬ (line.getLast? = some Utf8.carriageReturn ∧ more.head? = some newline) ∧
    byteLength (lossy (extend line (cut newline more)).2) ≤ maxLine)
    ⟨fun h => ⟨h.1, h.2.1, h.2.2⟩, fun h => ⟨h.sequence, h.lineEnd, h.fits⟩⟩

theorem decodeLine_append {line more : List UInt8} (hsequence : ¬ CutsSequence line more)
    (hend : more = [] → line.getLast? ≠ some Utf8.carriageReturn) :
    decodeLine (line ++ more) = lossy line ++ stripLast '\r' (lossy more) := by
  rw [decodeLine, lossy_stripLast, lossy_append hsequence]
  apply stripLast_append
  intro hnil hlast
  by_cases hmore : more = []
  · exact hend hmore ((getLast_lossy_iff line).1 hlast)
  · exact lossy_ne_nil hmore hnil

/-- The first line of some bytes begins as they do, unless it is empty. -/
theorem head_cut {bytes line : List UInt8} {lines : List (List UInt8)}
    (h : (cut newline bytes).1 = line :: lines) :
    bytes.head? = if line = [] then some newline else line.head? := by
  cases bytes with
  | nil => exact absurd h (by simp [cut])
  | cons b bytes =>
    by_cases hb : b = newline
    · rw [hb, cut_cons_sep] at h
      obtain ⟨rfl, -⟩ := List.cons.inj h
      rw [if_pos rfl, hb]
      rfl
    · rw [cut_cons_of_ne hb] at h
      generalize cut newline bytes = p at h
      obtain ⟨_ | ⟨first, rest⟩, last⟩ := p
      · exact absurd h (by simp [extend])
      · obtain ⟨rfl, -⟩ := List.cons.inj h
        rfl

/-- A whole read returns the lines that its bytes finish, and holds what they leave unfinished. -/
theorem takeIn_whole {t : Tailer} {line more : List UInt8} (hpending : t.pending = lossy line)
    (h : Whole line more) :
    (t.takeIn more).1.pending = lossy (extend line (cut newline more)).2 ∧
      (t.takeIn more).2 = keep ((extend line (cut newline more)).1.map decodeLine) := by
  have hcut := cut_lossy more
  have hrest : (extend (lossy line) (cut '\n' (lossy more))).2 =
      lossy (extend line (cut newline more)).2 := by
    cases hlines : (cut newline more).1 with
    | nil =>
      have hmore := cut_rest_of_nil hlines
      have hsame : cut newline more = ([], more) := Prod.ext hlines hmore
      rw [hcut, hsame]
      exact (lossy_append h.sequence).symm
    | cons first lines =>
      have hsame : cut newline more = (first :: lines, (cut newline more).2) := Prod.ext hlines rfl
      rw [hcut, hsame]
      rfl
  have hlines : completed (lossy line) (cut '\n' (lossy more)).1 =
      (extend line (cut newline more)).1.map decodeLine := by
    have hdecode : ∀ l : List UInt8, stripLast '\r' (lossy l) = decodeLine l :=
      fun l => (lossy_stripLast l).symm
    rw [hcut]
    cases hlines : (cut newline more).1 with
    | nil =>
      have hsame : cut newline more = ([], (cut newline more).2) := Prod.ext hlines rfl
      rw [hsame]
      rfl
    | cons first lines =>
      have hsame : cut newline more = (first :: lines, (cut newline more).2) := Prod.ext hlines rfl
      have hhead := head_cut hlines
      have hfirst : decodeLine (line ++ first) = lossy line ++ stripLast '\r' (lossy first) := by
        apply decodeLine_append
        · rintro ⟨p, hp, b, hb, hcontinues⟩
          refine h.sequence ⟨p, hp, b, ?_, hcontinues⟩
          rwa [hhead, if_neg (by rintro rfl; simp at hb)]
        · intro hnil hreturn
          exact h.lineEnd ⟨hreturn, by rw [hhead, if_pos hnil]⟩
      rw [hsame, extend, List.map_cons, List.map_cons, completed, hfirst, List.map_map]
      exact congrArg _ (List.map_congr_left (fun l _ => hdecode l))
  have hheld : byteLength (extend (⟨t.pending, t.oversized, []⟩ : Reading).pending
      (cut '\n' (lossy more))).2 ≤ maxLine := by
    rw [hpending, hrest]
    exact h.fits
  have hfold := foldl_takePiece hheld
  rw [hpending, hrest, hlines, List.nil_append] at hfold
  rw [Tailer.takeIn, hpending]
  exact hfold

namespace Following

def chunk (s : Following) (count : ℕ) : List UInt8 :=
  (s.bytes.drop s.tailer.offset).take (min count (min (s.bytes.length - s.tailer.offset) maxRead))

def ReadsWhole (s : Following) : FollowStep → Prop
  | .append _ | .read .statFailed | .read .readFailed => True
  | .read (.delivered count) => Whole (unfinished s.readBytes) (s.chunk count)

/-- What has been returned is what the part read says, less what was there before. -/
structure Follows (old : List UInt8) (returned : List Text) (s : Following) : Prop where
  offset_le : s.tailer.offset ≤ s.bytes.length
  known : s.tailer.identity = s.identity ∨ s.tailer.offset = 0
  pending_eq : s.tailer.pending = lossy (unfinished s.readBytes)
  shown_eq : shownLines s.readBytes = shownLines old ++ returned

variable {s : Following} {old : List UInt8} {returned : List Text}

/-- A file that is only appended to is never taken for another one, unless nothing was read of it.
-/
theorem Follows.rotate (h : Follows old returned s) :
    (s.tailer.rotate s.bytes.length s.identity).offset = s.tailer.offset ∧
      (s.tailer.rotate s.bytes.length s.identity).pending = s.tailer.pending ∧
      (s.tailer.rotate s.bytes.length s.identity).identity = s.identity := by
  rw [Tailer.rotate]
  split_ifs with hrotated
  · have hzero : s.tailer.offset = 0 := by
      rcases h.known with hknown | hzero
      · simp [hknown, Nat.not_lt.2 h.offset_le] at hrotated
      · exact hzero
    refine ⟨hzero.symm, ?_, rfl⟩
    rw [h.pending_eq, readBytes, hzero]
    rfl
  · exact ⟨rfl, rfl, rfl⟩

theorem Follows.append (h : Follows old returned s) (more : List UInt8) :
    Follows old returned { s with contents := some (s.bytes ++ more) } := by
  have hread : ({ s with contents := some (s.bytes ++ more) } : Following).readBytes =
    s.readBytes :=
    List.take_append_of_le_length h.offset_le
  refine ⟨?_, h.known, by rw [hread]; exact h.pending_eq, by rw [hread]; exact h.shown_eq⟩
  exact h.offset_le.trans (by simp [bytes])

theorem Follows.congr (h : Follows old returned s) {t : Tailer}
    (hoffset : t.offset = s.tailer.offset)
    (hpending : t.pending = s.tailer.pending) (hidentity : t.identity = s.identity) :
    Follows old returned { s with tailer := t } := by
  have hread : ({ s with tailer := t } : Following).readBytes = s.readBytes := by
    rw [readBytes, readBytes, hoffset]
    rfl
  refine ⟨?_, Or.inl hidentity, ?_, by rw [hread]; exact h.shown_eq⟩
  · exact hoffset.le.trans h.offset_le
  · rw [hread, ← h.pending_eq]
    exact hpending

theorem readBytes_chunk (s : Following) (count : ℕ) :
    s.bytes.take (s.tailer.offset + (s.chunk count).length) = s.readBytes ++ s.chunk count := by
  rw [List.take_add, readBytes]
  congr 1
  exact (List.prefix_iff_eq_take.1 (List.take_prefix _ _)).symm

theorem Follows.takeIn (h : Follows old returned s) (hidentity : s.tailer.identity = s.identity)
    {count : ℕ} (hwhole : Whole (unfinished s.readBytes) (s.chunk count)) :
    Follows old (returned ++ (s.tailer.takeIn (s.chunk count)).2)
      { s with tailer := (s.tailer.takeIn (s.chunk count)).1 } := by
  have hread : ({ s with tailer := (s.tailer.takeIn (s.chunk count)).1 } : Following).readBytes =
      s.readBytes ++ s.chunk count := readBytes_chunk s count
  obtain ⟨hpending, hlines⟩ := takeIn_whole h.pending_eq hwhole
  have hcut : cut newline (s.readBytes ++ s.chunk count) =
      ((cut newline s.readBytes).1 ++
        (extend (cut newline s.readBytes).2 (cut newline (s.chunk count))).1,
      (extend (cut newline s.readBytes).2 (cut newline (s.chunk count))).2) :=
    cut_append s.readBytes (s.chunk count)
  refine ⟨?_, Or.inl hidentity, ?_, ?_⟩
  · have hlength := congrArg List.length (readBytes_chunk s count)
    have hle := h.offset_le
    have hchunk : (s.chunk count).length ≤ s.bytes.length - s.tailer.offset :=
      (List.length_take_le _ _).trans ((min_le_right _ _).trans (min_le_left _ _))
    change s.tailer.offset + (s.chunk count).length ≤ s.bytes.length
    omega
  · rw [hread, unfinished, hcut]
    exact hpending
  · rw [hread, shownLines, hcut, List.map_append, keep, List.filter_append, hlines,
      ← List.append_assoc,
      ← h.shown_eq]
    rfl

theorem Follows.step (h : Follows old returned s) {e : FollowStep} (hwhole : s.ReadsWhole e) :
    Follows old (returned ++ (s.step e).2) (s.step e).1 := by
  cases e with
  | append more =>
    rw [Following.step, List.append_nil]
    exact h.append more
  | read answer =>
    obtain ⟨identity, contents, tailer⟩ := s
    cases contents with
    | none =>
      have hsame : Follows old (returned ++ []) ⟨identity, none, tailer⟩ := by
        rw [List.append_nil]
        exact h
      cases answer <;> exact hsame
    | some contents =>
      obtain ⟨hoffset, hpending, hidentity⟩ := h.rotate
      have hrotated := h.congr hoffset hpending hidentity
      cases answer with
      | statFailed =>
        rw [Following.step]
        exact (List.append_nil returned).symm ▸ h
      | readFailed =>
        rw [Following.step, statFor, stat]
        simp only [Tailer.readNewLines, deliver]
        split_ifs
        · exact (List.append_nil returned).symm ▸ hrotated
        · exact (List.append_nil returned).symm ▸ hrotated
      | delivered count =>
        have hwhole' : Whole (unfinished (readBytes ⟨identity, some contents,
            tailer.rotate contents.length identity⟩)) (chunk ⟨identity, some contents,
            tailer.rotate contents.length identity⟩ count) := by
          simp only [readBytes, chunk] at hoffset ⊢
          change (tailer.rotate contents.length identity).offset = tailer.offset at hoffset
          rw [hoffset]
          exact hwhole
        have htaken := hrotated.takeIn hidentity hwhole'
        rw [Following.step, statFor, stat]
        simp only [Tailer.readNewLines, deliver]
        split_ifs
        · exact (List.append_nil returned).symm ▸ hrotated
        · exact htaken

theorem Begins.follows (hs : s.Begins) (hline : unfinished s.readBytes = []) :
    Follows s.readBytes [] s := by
  obtain ⟨path, stat, hstat, htailer⟩ := hs
  have hpending : s.tailer.pending = [] := by
    rcases htailer with h | h <;> cases stat <;> rw [h] <;> rfl
  have hoffset : s.tailer.offset = 0 ∨
      s.tailer.offset = s.bytes.length ∧ s.tailer.identity = s.identity := by
    rcases htailer with htailer | htailer
    · rcases hstat with rfl | rfl
      · rw [htailer, Following.stat, bytes]
        cases s.contents with
        | none => exact Or.inl rfl
        | some contents => exact Or.inr ⟨rfl, rfl⟩
      · rw [htailer]
        exact Or.inl rfl
    · rw [htailer]
      exact Or.inl rfl
  refine ⟨?_, ?_, ?_, (List.append_nil _).symm⟩
  · rcases hoffset with hzero | ⟨hend, -⟩ <;> omega
  · exact hoffset.symm.imp_left And.right
  · rw [hpending, hline]
    rfl

/-- In a run of whole reads from the start of a line, what is returned is what the file says, line
by line, as far as it has been read. -/
theorem returned_lines_of_whole_reads (hs : s.Begins) (hline : unfinished s.readBytes = [])
    {steps : List FollowStep} (h : Runs.Along Following.step ReadsWhole s steps) :
    shownLines (Runs.run Following.step s steps).1.readBytes =
      shownLines s.readBytes ++ (Runs.run Following.step s steps).2.flatten := by
  have hrun := Runs.invariant_outputs (Follows s.readBytes) (fun _ _ _ hfollows => hfollows.step)
    (hs.follows hline) h
  exact hrun.shown_eq

/-- A file that is written in two parts, read after each: a line with both its ends and a line that
goes on in the second part. -/
theorem returned_lines_of_whole_reads_two_parts :
    let s : Following := ⟨some (1, 1), none, Tailer.fromStart "auth.log" .notFound⟩
    let steps : List FollowStep := [.append [0x61, 0x0D, 0x0A, 0x62], .read (.delivered 4),
      .append [0x63, 0x0A], .read (.delivered 2)]
    s.Begins ∧ Runs.Along Following.step ReadsWhole s steps ∧
      shownLines (Runs.run Following.step s steps).1.readBytes =
        shownLines s.readBytes ++ (Runs.run Following.step s steps).2.flatten ∧
      (Runs.run Following.step s steps).2.flatten = ["a".toList, "bc".toList] := by
  intro s steps
  have hbegins : s.Begins := ⟨"auth.log", .notFound, Or.inl rfl, Or.inr rfl⟩
  have halong : Runs.Along Following.step ReadsWhole s steps := by
    refine ⟨trivial, ?_, trivial, ?_, trivial⟩
    · change Whole _ _
      decide
    · change Whole _ _
      decide
  exact ⟨hbegins, halong, returned_lines_of_whole_reads hbegins rfl halong, by decide⟩

/-- A read that ends inside a character, and one that ends inside a line end: neither line is
returned as the file has it. -/
theorem returned_lines_cut_by_reads :
    let s : Following := ⟨some (1, 1), none, Tailer.fromStart "auth.log" .notFound⟩
    let character : List FollowStep := [.append [0xC3], .read (.delivered 1), .append [0xA9, 0x0A],
      .read (.delivered 2)]
    let lineEnd : List FollowStep := [.append [0x61, 0x0D], .read (.delivered 2), .append [0x0A],
      .read (.delivered 1)]
    s.Begins ∧
      shownLines (Runs.run Following.step s character).1.readBytes = ["\u00E9".toList] ∧
      (Runs.run Following.step s character).2.flatten = ["\uFFFD\uFFFD".toList] ∧
      shownLines (Runs.run Following.step s lineEnd).1.readBytes = ["a".toList] ∧
      (Runs.run Following.step s lineEnd).2.flatten = ["a\r".toList] := by
  intro s character lineEnd
  refine ⟨⟨"auth.log", .notFound, Or.inl rfl, Or.inr rfl⟩, ?_, ?_, ?_, ?_⟩
  · decide
  · decide
  · decide
  · decide

end Following

end CyberSentinel.Logs
