import PgKronika.TailState

/-! The log tailer reads a growing file in bounded batches. Whatever the chunks, the budgets and
the clock, the lines of all batches are the lines of the file up to the resume point. -/
namespace PgKronika

open ByteCodec CheckedArith

def newlineByte : UInt8 := 10

def readBufSize : ℕ := 65536

structure TailCaps where
  maxLines : ℕ
  maxBytes : ℕ
  maxLineLen : ℕ
  maxBacklogBytes : ℕ
  backlogTailBytes : ℕ
  deriving DecidableEq

structure TailGaps where
  backlogBytesSkipped : ℕ
  sparseBytesSkipped : ℕ
  truncatedLines : ℕ
  binaryLinesDropped : ℕ
  rotations : ℕ
  budgetExhaustions : ℕ
  deriving DecidableEq

def TailGaps.default : TailGaps := ⟨0,0,0,0,0,0⟩

def u32Max : ℕ := 2^32-1

/-- The counters of gaps are 32-bit and saturate. -/
def saturatingInc (n : ℕ) : ℕ := min (n+1) u32Max

/-- One bounded physical line. -/
structure TailLine where
  offset : ℕ
  bytes : Bytes
  truncated : Bool
  deriving DecidableEq

/-- What the system answers during one read: how many bytes each call returns at most, whether
each look at the clock is inside the time budget, and where data begins at or behind an offset. -/
structure ReadCalls where
  readLen : ℕ → ℕ
  inTime : ℕ → Bool
  dataAt : ℕ → Option ℕ

/-- The variables of a running read. -/
structure TailScan where
  cursor : ℕ
  remaining : ℕ
  line : Bytes
  lineStart : ℕ
  committed : ℕ
  lines : List TailLine
  skipUntilNewline : Bool
  truncatedCurrent : Bool
  verifySparseTail : Bool
  gaps : TailGaps
  reads : ℕ
  looks : ℕ

/-- The clock has been looked at once more. -/
def TailScan.looked (t : TailScan) : TailScan := { t with looks := t.looks+1 }

/-- Bytes of one line, without its newline. -/
def consumeSegment (maxLineLen : ℕ) (segment : Bytes) (t : TailScan) : TailScan :=
  if segment = [] ∨ t.skipUntilNewline = true then t
  else if 0 ∈ segment then
    { t with
      line := []
      skipUntilNewline := true
      truncatedCurrent := false
      gaps := { t.gaps with
        binaryLinesDropped := saturatingInc t.gaps.binaryLinesDropped } }
  else
    let available := maxLineLen-t.line.length
    if segment.length ≤ available then { t with line := t.line ++ segment }
    else
      { t with
        line := []
        lines := t.lines ++ [⟨t.lineStart,t.line ++ segment.take available,true⟩]
        skipUntilNewline := true
        truncatedCurrent := true
        gaps := { t.gaps with truncatedLines := saturatingInc t.gaps.truncatedLines } }

/-- The newline at the cursor ends the line. -/
def TailScan.endLine (t : TailScan) : TailScan :=
  { t with
    cursor := t.cursor+1
    lines :=
      if t.skipUntilNewline = false ∧ t.line ≠ [] then
        t.lines ++ [⟨t.lineStart,t.line,t.truncatedCurrent⟩]
      else t.lines
    line := []
    truncatedCurrent := false
    skipUntilNewline := false
    committed := t.cursor+1
    lineStart := t.cursor+1 }

/-- The bytes of one chunk, line by line, until a budget is spent; the answer is what is left of
the chunk. -/
def scanChunk (caps : TailCaps) (calls : ReadCalls) : ℕ → Bytes → TailScan → Bytes × TailScan
  | 0, chunk, t => (chunk,t)
  | fuel+1, chunk, t =>
    if chunk = [] ∨ caps.maxLines ≤ t.lines.length then (chunk,t)
    else if calls.inTime t.looks = false then (chunk,t.looked)
    else
      let segment := chunk.takeWhile (· ≠ newlineByte)
      let t := { consumeSegment caps.maxLineLen segment t.looked with
        cursor := t.cursor+segment.length }
      match chunk.dropWhile (· ≠ newlineByte) with
      | [] =>
        ([],if t.skipUntilNewline ∨ t.truncatedCurrent then { t with committed := t.cursor } else t)
      | _::chunk => scanChunk caps calls fuel chunk t.endLine

def TailScan.exhausted (t : TailScan) : TailScan :=
  { t with gaps := { t.gaps with
      budgetExhaustions := saturatingInc t.gaps.budgetExhaustions } }

/-- A chunk of zeroes where no data has been reported yet. -/
def TailScan.skipZeroes (t : TailScan) (n : ℕ) : TailScan :=
  { t with
    cursor := t.cursor+n
    committed := t.cursor+n
    skipUntilNewline := true
    gaps := { t.gaps with sparseBytesSkipped := t.gaps.sparseBytesSkipped+n } }

/-- A call has returned `n` bytes. -/
def TailScan.took (t : TailScan) (n : ℕ) : TailScan :=
  { t with reads := t.reads+1, remaining := t.remaining-n }

/-- Chunk after chunk, until a budget is spent, the file ends or a call returns nothing. A chunk
takes at least one byte of the budget, so `fuel` is never short. -/
def readChunks (caps : TailCaps) (calls : ReadCalls) (file : Bytes) : ℕ → TailScan → TailScan
  | 0, t => t
  | fuel+1, t =>
    if t.remaining = 0 ∨ caps.maxLines ≤ t.lines.length then t
    else if calls.inTime t.looks = false ∨ file.length ≤ t.cursor then t.looked
    else
      let t := t.looked
      let toRead := min (min readBufSize t.remaining) (file.length-t.cursor)
      let n := min toRead (calls.readLen t.reads)
      let chunk := slice file t.cursor n
      if n = 0 then t
      else
        let t := t.took n
        let verified := t.verifySparseTail && calls.inTime t.looks
        let t := if t.verifySparseTail then t.looked else t
        if verified ∧ chunk.all (· == 0) then readChunks caps calls file fuel (t.skipZeroes n)
        else
          let t := { t with verifySparseTail := t.verifySparseTail && !verified }
          match scanChunk caps calls chunk.length chunk t with
          | ([],t) => readChunks caps calls file fuel t
          | (_,t) => t.exhausted

structure TailBatch where
  lines : List TailLine
  gaps : TailGaps
  nextState : TailState
  unreadBytes : ℕ
  deriving DecidableEq

/-- A log file as one read finds it. -/
structure LogFile where
  path : Bytes
  parserKind : ParserKind
  dev : UInt64
  inode : UInt64
  bytes : Bytes
  fits : bytes.length ≤ u64Max

def LogFile.nextState (file : LogFile) (offset : ℕ) (skip : Bool) : TailState :=
  ⟨file.path,file.dev,file.inode,UInt64.ofNat offset,file.parserKind,skip⟩

/-- Where to resume, whether a line is left to skip, and the rotations seen. -/
def initialOffset (file : LogFile) (startAtBeginning : Bool) : Option TailState → ℕ × Bool × ℕ
  | none => (if startAtBeginning then 0 else file.bytes.length,false,0)
  | some state =>
    if state.path ≠ file.path ∨ state.parserKind ≠ file.parserKind then (0,false,1)
    else if state.dev = file.dev ∧ state.inode = file.inode ∧
        state.offset.toNat ≤ file.bytes.length then
      (state.offset.toNat,state.skipUntilNewline,0)
    else (0,state.skipUntilNewline,1)

/-- Skip ahead when too much has been left unread. -/
def applyBacklogGuard (caps : TailCaps) (size cursor : ℕ) (skip : Bool) : ℕ × Bool × ℕ :=
  let newOffset := size-caps.backlogTailBytes
  if size-cursor ≤ caps.maxBacklogBytes ∨ newOffset ≤ cursor then (cursor,skip,0)
  else (newOffset,true,newOffset-cursor)

/-- The resume point of a finished read. -/
def TailScan.resumeOffset (t : TailScan) (size : ℕ) : ℕ :=
  min (if t.skipUntilNewline ∨ t.truncatedCurrent then max t.committed t.cursor
    else if t.line = [] then t.cursor
    else t.committed) size

/-- The variables in front of the first chunk; `found` is where data begins. -/
def startScan (caps : TailCaps) (cursor : ℕ) (skip : Bool) (found : Option ℕ)
    (rotations backlogBytesSkipped : ℕ) : TailScan :=
  let dataOffset := max cursor (found.getD cursor)
  { cursor := dataOffset
    remaining := caps.maxBytes
    line := []
    lineStart := dataOffset
    committed := dataOffset
    lines := []
    skipUntilNewline := skip || decide (cursor < dataOffset)
    truncatedCurrent := false
    verifySparseTail := found.isNone
    gaps := { TailGaps.default with
      rotations
      backlogBytesSkipped
      sparseBytesSkipped := dataOffset-cursor }
    reads := 0
    looks := 0 }

/-- What a finished scan hands over. -/
def finishScan (caps : TailCaps) (calls : ReadCalls) (file : LogFile) (t : TailScan) : TailBatch :=
  let t := if t.remaining = 0 ∨ caps.maxLines ≤ t.lines.length ∨ calls.inTime t.looks = false then
    t.exhausted else t
  let resumeOffset := t.resumeOffset file.bytes.length
  ⟨t.lines,t.gaps,file.nextState resumeOffset (t.skipUntilNewline || t.truncatedCurrent),
    file.bytes.length-resumeOffset⟩

def readOpenedFile (caps : TailCaps) (calls : ReadCalls) (startAtBeginning : Bool)
    (file : LogFile) (state : Option TailState) : TailBatch :=
  let size := file.bytes.length
  let (cursor,skip,rotations) := initialOffset file startAtBeginning state
  if size ≤ cursor then ⟨[],{ TailGaps.default with rotations },file.nextState cursor skip,0⟩
  else
    let (cursor,skip,backlogBytesSkipped) := applyBacklogGuard caps size cursor skip
    let found := if size ≤ cursor then none else calls.dataAt cursor
    finishScan caps calls file (readChunks caps calls file.bytes caps.maxBytes
      (startScan caps cursor skip found rotations backlogBytesSkipped))

/-- The newline-terminated lines of a file with their offsets; `line` is the one in front of the
bytes. -/
def logLines : ℕ → Bytes → Bytes → List (ℕ × Bytes)
  | _, _, [] => []
  | start, line, b::bs =>
    if b = newlineByte then (start,line) :: logLines (start+line.length+1) [] bs
    else logLines start (line ++ [b]) bs

/-- What is delivered of a line: nothing of an empty or binary one, a bounded part of a long
one. -/
def deliver (maxLineLen : ℕ) (l : ℕ × Bytes) : Option TailLine :=
  if l.2 = [] ∨ 0 ∈ l.2 then none
  else some ⟨l.1,l.2.take maxLineLen,decide (maxLineLen < l.2.length)⟩

/-- Delivered lines with the counts of cut and of dropped ones. -/
@[ext] structure Tally where
  lines : List TailLine
  truncated : ℕ
  binary : ℕ
  deriving DecidableEq

def Tally.add (a b : Tally) : Tally :=
  ⟨a.lines ++ b.lines,a.truncated+b.truncated,a.binary+b.binary⟩

def Tally.none : Tally := ⟨[],0,0⟩

/-- The reference result for some lines. -/
def tallyOf (maxLineLen : ℕ) (ls : List (ℕ × Bytes)) : Tally where
  lines := ls.filterMap (deliver maxLineLen)
  truncated := (ls.filterMap (deliver maxLineLen)).countP TailLine.truncated
  binary := ls.countP fun l => decide (0 ∈ l.2)

theorem tallyOf_append (maxLineLen : ℕ) (a b : List (ℕ × Bytes)) :
    tallyOf maxLineLen (a ++ b) = (tallyOf maxLineLen a).add (tallyOf maxLineLen b) := by
  simp [tallyOf,Tally.add]

theorem Tally.add_assoc (a b c : Tally) : (a.add b).add c = a.add (b.add c) := by
  simp [Tally.add,Nat.add_assoc]

/-- The bytes in front of a line. -/
def EndsLine (pre : Bytes) : Prop := pre = [] ∨ ∃ a, pre = a ++ [newlineByte]

theorem EndsLine.push (pre line : Bytes) : EndsLine (pre ++ (line ++ [newlineByte])) :=
  .inr ⟨pre ++ line,(List.append_assoc ..).symm⟩

theorem logLines_line {line : Bytes} (hline : newlineByte ∉ line) (start : ℕ) (acc rest : Bytes) :
    logLines start acc (line ++ newlineByte :: rest) =
      (start,acc ++ line) :: logLines (start+(acc ++ line).length+1) [] rest := by
  induction line generalizing acc with
  | nil => simp [logLines]
  | cons b line ih =>
    have hb : b ≠ newlineByte := fun he => hline (he ▸ List.mem_cons_self)
    rw [List.cons_append,logLines,if_neg hb,ih fun h => hline (List.mem_cons_of_mem _ h)]
    simp

/-- Lines are found from line to line. -/
theorem logLines_closed (start : ℕ) (acc a rest : Bytes) :
    logLines start acc (a ++ [newlineByte] ++ rest) =
      logLines start acc (a ++ [newlineByte]) ++
        logLines (start+acc.length+(a ++ [newlineByte]).length) [] rest := by
  induction a generalizing start acc with
  | nil =>
    simp [logLines]
  | cons b a ih =>
    rw [List.cons_append,List.cons_append,logLines,logLines]
    split_ifs with hb
    · rw [ih,List.cons_append]
      congr 3
      simp
      omega
    · rw [ih]
      congr 2
      simp
      omega

theorem EndsLine.split_lines {pre : Bytes} (h : EndsLine pre) (rest : Bytes) :
    logLines 0 [] (pre ++ rest) = logLines 0 [] pre ++ logLines pre.length [] rest := by
  rcases h with rfl | ⟨a,rfl⟩
  · rfl
  · rw [logLines_closed]
    simp

/-- One line more. -/
theorem EndsLine.push_lines {pre line : Bytes} (h : EndsLine pre) (hline : newlineByte ∉ line) :
    logLines 0 [] (pre ++ (line ++ [newlineByte])) = logLines 0 [] pre ++ [(pre.length,line)] := by
  rw [h.split_lines,logLines_line hline]
  rfl

/-- A file that ends with a newline has its next newline somewhere. -/
theorem EndsLine.line_ahead {pre line rest : Bytes} (h : EndsLine (pre ++ (line ++ rest)))
    (hline : newlineByte ∉ line) (hne : line ≠ []) :
    ∃ more post, newlineByte ∉ line ++ more ∧ rest = more ++ newlineByte :: post := by
  have hmem : newlineByte ∈ rest := by
    rcases h with hnil | ⟨a,ha⟩
    · simp [hne] at hnil
    · have hlast : (line ++ rest).getLast? = some newlineByte := by
        rw [← List.getLast?_append_of_ne_nil pre (by simp [hne]),ha]
        simp
      rcases List.mem_append.mp (List.mem_of_getLast? hlast) with hin | hin
      · exact absurd hin hline
      · exact hin
  obtain ⟨more,post,hsplit,hmore⟩ := List.eq_append_cons_of_mem hmem
  exact ⟨more,post,by simp [hline,hmore],hsplit⟩

section Scan

variable {maxLineLen : ℕ} {whole : Bytes} {base : Tally}

/-- The file as it goes on: it ends with a newline, and every binary line shows it before it is
cut. -/
structure Readable (maxLineLen : ℕ) (whole : Bytes) : Prop where
  ends : EndsLine whole
  visible : ∀ l ∈ logLines 0 [] whole, 0 ∈ l.2 → 0 ∈ l.2.take (maxLineLen+1)

/-- The counters of cut and of dropped lines have room for all of the file. -/
def Few (maxLineLen : ℕ) (whole : Bytes) : Prop :=
  (tallyOf maxLineLen (logLines 0 [] whole)).truncated ≤ u32Max ∧
    (tallyOf maxLineLen (logLines 0 [] whole)).binary ≤ u32Max

/-- The counters of a batch have room for `n` bytes more. -/
def TailScan.Room (t : TailScan) (n : ℕ) : Prop :=
  t.gaps.truncatedLines+n ≤ u32Max ∧ t.gaps.binaryLinesDropped+n ≤ u32Max

def TailScan.tally (t : TailScan) : Tally :=
  ⟨t.lines,t.gaps.truncatedLines,t.gaps.binaryLinesDropped⟩

/-- Inside a line that may still turn out any way. -/
structure Reading (maxLineLen : ℕ) (base : Tally) (pre line : Bytes) (t : TailScan) : Prop where
  skip : t.skipUntilNewline = false
  whole : t.truncatedCurrent = false
  held : t.line = line
  text : 0 ∉ line
  short : line.length ≤ maxLineLen
  committed : t.committed = pre.length
  lineStart : t.lineStart = pre.length
  tally : base.add t.tally = tallyOf maxLineLen (logLines 0 [] pre)

/-- Inside a line that has been delivered in part or dropped. -/
structure Skipping (maxLineLen : ℕ) (base : Tally) (pre line rest : Bytes) (t : TailScan) :
    Prop where
  skip : t.skipUntilNewline = true
  held : t.line = []
  started : line ≠ []
  committed : t.committed ≤ t.cursor
  tally : ∃ more post, newlineByte ∉ line ++ more ∧ rest = more ++ newlineByte :: post ∧
    base.add t.tally =
      tallyOf maxLineLen (logLines 0 [] (pre ++ (line ++ more ++ [newlineByte])))

/-- The cursor stands behind `line`, in front of `rest`. -/
structure Stands (whole pre line rest : Bytes) (cursor : ℕ) : Prop where
  boundary : EndsLine pre
  oneLine : newlineByte ∉ line
  split : whole = pre ++ (line ++ rest)
  cursor : cursor = pre.length+line.length

/-- A scan has delivered the lines in front of the cursor, on top of `base`. -/
def ScanInv (maxLineLen : ℕ) (whole : Bytes) (base : Tally) (t : TailScan) (rest : Bytes) :
    Prop :=
  ∃ pre line, Stands whole pre line rest t.cursor ∧
    (Reading maxLineLen base pre line t ∨ Skipping maxLineLen base pre line rest t)

/-- The line behind a boundary is a line of the file. -/
theorem lines_whole (pre line post : Bytes) :
    logLines 0 [] (pre ++ (line ++ newlineByte :: post)) =
      logLines 0 [] (pre ++ (line ++ [newlineByte])) ++
        logLines (pre.length+line.length+1) [] post := by
  have hsplit : pre ++ (line ++ newlineByte :: post) = pre ++ (line ++ [newlineByte]) ++ post := by
    simp
  rw [hsplit,(EndsLine.push pre line).split_lines]
  congr 2
  simp
  omega

/-- A decided line is accounted for, and the counters have room for it. -/
theorem Readable.decided {pre line post : Bytes} (h : Readable maxLineLen whole)
    (hpre : EndsLine pre) (hline : newlineByte ∉ line)
    (hsplit : whole = pre ++ (line ++ newlineByte :: post)) :
    tallyOf maxLineLen (logLines 0 [] (pre ++ (line ++ [newlineByte]))) =
        (tallyOf maxLineLen (logLines 0 [] pre)).add (tallyOf maxLineLen [(pre.length,line)]) ∧
      (0 ∈ line → 0 ∈ line.take (maxLineLen+1)) ∧
      (Few maxLineLen whole →
        (tallyOf maxLineLen (logLines 0 [] (pre ++ (line ++ [newlineByte])))).truncated ≤ u32Max ∧
        (tallyOf maxLineLen (logLines 0 [] (pre ++ (line ++ [newlineByte])))).binary ≤ u32Max) := by
  have hlines := lines_whole pre line post
  rw [← hsplit] at hlines
  refine ⟨by rw [hpre.push_lines hline,tallyOf_append],?_,fun hfew => ?_⟩
  · refine h.visible (pre.length,line) ?_
    rw [hlines,hpre.push_lines hline]
    simp
  · rw [Few,hlines,tallyOf_append] at hfew
    exact ⟨le_trans (Nat.le_add_right ..) hfew.1,le_trans (Nat.le_add_right ..) hfew.2⟩

theorem tallyOf_binary {start : ℕ} {line : Bytes} (h : 0 ∈ line) :
    tallyOf maxLineLen [(start,line)] = ⟨[],0,1⟩ := by
  simp [tallyOf,deliver,h]

theorem tallyOf_text {start : ℕ} {line : Bytes} (h : 0 ∉ line) (hne : line ≠ []) :
    tallyOf maxLineLen [(start,line)] =
      ⟨[⟨start,line.take maxLineLen,decide (maxLineLen < line.length)⟩],
        if maxLineLen < line.length then 1 else 0,0⟩ := by
  have hdeliver : deliver maxLineLen (start,line) =
      some ⟨start,line.take maxLineLen,decide (maxLineLen < line.length)⟩ := by
    rw [deliver,if_neg (by simp [hne,h])]
  simp only [tallyOf,List.filterMap_cons,hdeliver,List.filterMap_nil]
  ext1
  · rfl
  · simp [List.countP_cons]
  · simp [h]

theorem tallyOf_empty {start : ℕ} : tallyOf maxLineLen [(start,[])] = Tally.none := by
  simp [tallyOf,deliver,Tally.none]

theorem saturatingInc_of_lt {n : ℕ} (h : n+1 ≤ u32Max) : saturatingInc n = n+1 := min_eq_left h

/-- Up to its newline the rest of a line is found behind any part of it. -/
theorem rest_of_line {segment rest more post : Bytes} (hsegment : newlineByte ∉ segment)
    (h : segment ++ rest = more ++ newlineByte :: post) :
    ∃ more', more = segment ++ more' ∧ rest = more' ++ newlineByte :: post := by
  rcases List.append_eq_append_iff.mp h with ⟨more',hmore,hrest⟩ | ⟨c,hseg,hc⟩
  · exact ⟨more',hmore,hrest⟩
  · cases c with
    | nil =>
      refine ⟨[],?_,hc.symm⟩
      rw [hseg]
      simp
    | cons b c =>
      have hb : newlineByte = b := List.head_eq_of_cons_eq hc
      exact absurd (by rw [hseg,hb]; simp) hsegment

/-- The line of a decision: a binary or an overlong part fixes what becomes of the whole line. -/
theorem Readable.line_found (h : Readable maxLineLen whole) {pre line rest : Bytes} {cursor : ℕ}
    (hstands : Stands whole pre line rest cursor) (hne : line ≠ []) :
    ∃ more post, newlineByte ∉ line ++ more ∧ rest = more ++ newlineByte :: post ∧
      whole = pre ++ (line ++ more ++ newlineByte :: post) := by
  have hends := h.ends
  rw [hstands.split] at hends
  obtain ⟨more,post,hmore,hrest⟩ := hends.line_ahead hstands.oneLine hne
  refine ⟨more,post,hmore,hrest,?_⟩
  rw [hstands.split,hrest]
  simp

/-- A part of a line, without its newline. -/
theorem ScanInv.consume (hwhole : Readable maxLineLen whole) {t : TailScan} {segment rest : Bytes}
    (h : ScanInv maxLineLen whole base t (segment ++ rest)) (hsegment : newlineByte ∉ segment)
    (hroom : t.Room segment.length ∨ Few maxLineLen whole) :
    ScanInv maxLineLen whole base
      { consumeSegment maxLineLen segment t with cursor := t.cursor+segment.length } rest := by
  obtain ⟨pre,line,hstands,hstate⟩ := h
  have hnext : Stands whole pre (line ++ segment) rest (t.cursor+segment.length) := by
    refine ⟨hstands.boundary,by simp [hstands.oneLine,hsegment],?_,?_⟩
    · rw [hstands.split,List.append_assoc line]
    · rw [hstands.cursor,List.length_append,Nat.add_assoc]
  refine ⟨pre,line ++ segment,hnext,?_⟩
  by_cases hnil : segment = []
  · subst hnil
    rw [consumeSegment,if_pos (.inl rfl),List.append_nil]
    rcases hstate with hreading | hskipping
    · exact .inl ⟨hreading.skip,hreading.whole,hreading.held,hreading.text,hreading.short,
        hreading.committed,hreading.lineStart,hreading.tally⟩
    · exact .inr ⟨hskipping.skip,hskipping.held,hskipping.started,hskipping.committed,
        hskipping.tally⟩
  rcases hstate with hreading | hskipping
  · rw [consumeSegment,if_neg (by simp [hnil,hreading.skip])]
    obtain ⟨more,post,hmore,hrest,hsplit⟩ := hwhole.line_found hnext (by simp [hnil])
    obtain ⟨htally,hvisible,hfew⟩ := hwhole.decided hstands.boundary hmore hsplit
    have hsome : 0 < segment.length := List.length_pos_iff.mpr hnil
    rw [htally,← hreading.tally] at hfew
    split_ifs with hbin
    · -- The line is dropped, whatever follows.
      right
      rw [tallyOf_binary (by simp [hbin])] at htally hfew
      refine ⟨rfl,rfl,by simp [hnil],?_,more,post,hmore,hrest,?_⟩
      · change t.committed ≤ t.cursor+segment.length
        rw [hreading.committed,hstands.cursor]
        omega
      · rw [htally,← hreading.tally,Tally.add_assoc]
        have hlt : t.gaps.binaryLinesDropped+1 ≤ u32Max := by
          rcases hroom with hroom | hroom
          · exact le_trans (Nat.add_le_add_left hsome _) hroom.2
          · have hbinary : base.binary+t.gaps.binaryLinesDropped+1 ≤ u32Max := (hfew hroom).2
            omega
        congr 1
        ext1
        · exact (List.append_nil _).symm
        · rfl
        · exact saturatingInc_of_lt hlt
    · dsimp only
      have htext : 0 ∉ line ++ segment := by simp [hreading.text,hbin]
      split_ifs with hfits
      · left
        rw [hreading.held] at hfits
        refine ⟨hreading.skip,hreading.whole,?_,htext,?_,hreading.committed,hreading.lineStart,
          hreading.tally⟩
        · exact congrArg (· ++ segment) hreading.held
        · have hshort := hreading.short
          rw [List.length_append]
          omega
      · -- The line is cut here: a zero behind the cut would have shown by now.
        right
        rw [hreading.held] at hfits
        have hlong : maxLineLen < (line ++ segment ++ more).length := by
          have hshort := hreading.short
          rw [List.length_append,List.length_append]
          omega
        have htake : (line ++ segment ++ more).take maxLineLen =
            line ++ segment.take (maxLineLen-line.length) := by
          rw [List.append_assoc,List.take_append,List.take_of_length_le hreading.short,
            List.take_append_of_le_length (by omega)]
        have hwholeText : 0 ∉ line ++ segment ++ more := by
          intro hzero
          have hcut := hvisible hzero
          have hshort := hreading.short
          rw [List.take_append_of_le_length (by rw [List.length_append]; omega)] at hcut
          exact htext (List.mem_of_mem_take hcut)
        rw [tallyOf_text hwholeText (by simp [hnil]),if_pos hlong,decide_eq_true hlong,htake]
          at htally hfew
        refine ⟨rfl,rfl,by simp [hnil],?_,more,post,hmore,hrest,?_⟩
        · change t.committed ≤ t.cursor+segment.length
          rw [hreading.committed,hstands.cursor]
          omega
        · rw [htally,← hreading.tally,Tally.add_assoc]
          have hlt : t.gaps.truncatedLines+1 ≤ u32Max := by
            rcases hroom with hroom | hroom
            · exact le_trans (Nat.add_le_add_left hsome _) hroom.1
            · have htruncated : base.truncated+t.gaps.truncatedLines+1 ≤ u32Max := (hfew hroom).1
              omega
          congr 1
          ext1
          · change t.lines ++ _ = t.lines ++ _
            rw [hreading.held,hreading.lineStart]
          · exact saturatingInc_of_lt hlt
          · rfl
  · rw [consumeSegment,if_pos (.inr hskipping.skip)]
    obtain ⟨more,post,hmore,hrest,htally⟩ := hskipping.tally
    obtain ⟨more',rfl,hrest'⟩ := rest_of_line hsegment hrest
    refine .inr ⟨hskipping.skip,hskipping.held,by simp [hnil],?_,more',post,by simpa using hmore,
      hrest',?_⟩
    · exact le_trans hskipping.committed (Nat.le_add_right ..)
    · rw [List.append_assoc line]
      exact htally

/-- The newline of a line. -/
theorem ScanInv.endLine {t : TailScan} {rest : Bytes}
    (h : ScanInv maxLineLen whole base t (newlineByte :: rest)) :
    ScanInv maxLineLen whole base t.endLine rest := by
  obtain ⟨pre,line,hstands,hstate⟩ := h
  have hlength : t.cursor+1 = (pre ++ (line ++ [newlineByte])).length := by
    rw [hstands.cursor]
    simp
    omega
  have htally : base.add t.endLine.tally =
      tallyOf maxLineLen (logLines 0 [] (pre ++ (line ++ [newlineByte]))) := by
    rcases hstate with hreading | hskipping
    · rw [hstands.boundary.push_lines hstands.oneLine,tallyOf_append,← hreading.tally,
        Tally.add_assoc]
      congr 1
      by_cases hne : line = []
      · subst hne
        rw [tallyOf_empty]
        simp [TailScan.tally,TailScan.endLine,hreading.held,Tally.add,Tally.none]
      · rw [tallyOf_text hreading.text hne,if_neg (not_lt.mpr hreading.short),
          decide_eq_false (not_lt.mpr hreading.short),List.take_of_length_le hreading.short]
        simp [TailScan.tally,TailScan.endLine,hreading.skip,hreading.whole,hreading.held,hne,
          hreading.lineStart,Tally.add]
    · obtain ⟨more,post,hmore,hrest,htally⟩ := hskipping.tally
      have hnil : more = [] := by
        cases more with
        | nil => rfl
        | cons b more =>
          have hb : newlineByte = b := List.head_eq_of_cons_eq hrest
          exact absurd (by simp [hb]) hmore
      rw [hnil,List.append_nil] at htally
      rw [← htally]
      congr 1
      ext1
      · simp [TailScan.tally,TailScan.endLine,hskipping.skip]
      · rfl
      · rfl
  refine ⟨pre ++ (line ++ [newlineByte]),[],⟨EndsLine.push pre line,by simp,?_,?_⟩,.inl
    ⟨rfl,rfl,rfl,by simp,Nat.zero_le _,hlength,hlength,htally⟩⟩
  · rw [hstands.split]
    simp
  · exact hlength

/-- Between two parts nothing is committed that the invariant does not know of. -/
theorem ScanInv.commit {t : TailScan} {rest : Bytes} (h : ScanInv maxLineLen whole base t rest) :
    ScanInv maxLineLen whole base
      (if t.skipUntilNewline ∨ t.truncatedCurrent then { t with committed := t.cursor } else t)
      rest := by
  split_ifs with hskip
  · obtain ⟨pre,line,hstands,hreading | hskipping⟩ := h
    · rw [hreading.skip,hreading.whole] at hskip
      simp at hskip
    · exact ⟨pre,line,hstands,.inr ⟨hskipping.skip,hskipping.held,hskipping.started,le_refl _,
        hskipping.tally⟩⟩
  · exact h

/-- What the lines depend on. -/
def TailScan.core (t : TailScan) :=
  (t.cursor,t.line,t.lineStart,t.committed,t.lines,t.skipUntilNewline,t.truncatedCurrent,
    t.gaps.truncatedLines,t.gaps.binaryLinesDropped)

/-- The clock and the budgets change nothing that the lines depend on. -/
theorem ScanInv.congr {t t' : TailScan} {rest : Bytes} (h : ScanInv maxLineLen whole base t rest)
    (hcore : t'.core = t.core) : ScanInv maxLineLen whole base t' rest := by
  simp only [TailScan.core,Prod.mk.injEq] at hcore
  obtain ⟨hcursor,hline,hstart,hcommitted,hlines,hskip,hcut,htruncated,hbinary⟩ := hcore
  have htally : t'.tally = t.tally := by
    rw [TailScan.tally,TailScan.tally,hlines,htruncated,hbinary]
  obtain ⟨pre,line,hstands,hreading | hskipping⟩ := h
  · exact ⟨pre,line,hcursor ▸ hstands,.inl ⟨hskip.trans hreading.skip,hcut.trans hreading.whole,
      hline.trans hreading.held,hreading.text,hreading.short,hcommitted.trans hreading.committed,
      hstart.trans hreading.lineStart,htally ▸ hreading.tally⟩⟩
  · exact ⟨pre,line,hcursor ▸ hstands,.inr ⟨hskip.trans hskipping.skip,hline.trans hskipping.held,
      hskipping.started,by rw [hcommitted,hcursor]; exact hskipping.committed,
      htally ▸ hskipping.tally⟩⟩

theorem Stands.length {pre line rest : Bytes} {cursor : ℕ} (h : Stands whole pre line rest cursor) :
    cursor+rest.length = whole.length := by
  rw [h.cursor,h.split]
  simp
  omega

theorem Stands.rest {pre line rest : Bytes} {cursor : ℕ} (h : Stands whole pre line rest cursor) :
    rest = whole.drop cursor := by
  rw [h.split,h.cursor,← List.append_assoc,← List.length_append,List.drop_left]

theorem takeWhile_noNewline (chunk : Bytes) :
    newlineByte ∉ chunk.takeWhile (· ≠ newlineByte) := fun hmem => by
  have hall := List.all_eq_true.mp (@List.all_takeWhile _ (· ≠ newlineByte) chunk)
  simpa using hall newlineByte hmem

/-- A chunk is one part of a line, or a line end comes first. -/
theorem dropWhile_newline {chunk after : Bytes} {b : UInt8}
    (h : chunk.dropWhile (· ≠ newlineByte) = b :: after) : b = newlineByte := by
  have hhead := List.head?_dropWhile_not (· ≠ newlineByte) chunk
  rw [h] at hhead
  simpa using hhead

theorem TailScan.Room.mono {t t' : TailScan} {m n : ℕ} (h : t.Room n)
    (htruncated : t'.gaps.truncatedLines = t.gaps.truncatedLines)
    (hbinary : t'.gaps.binaryLinesDropped = t.gaps.binaryLinesDropped) (hle : m ≤ n) :
    t'.Room m := by
  obtain ⟨ht,hb⟩ := h
  exact ⟨by omega,by omega⟩

/-- A segment takes room for its bytes at most. -/
theorem consumeSegment_room {segment : Bytes} {t : TailScan} {n : ℕ}
    (h : t.Room (segment.length+n)) : (consumeSegment maxLineLen segment t).Room n := by
  obtain ⟨htruncated,hbinary⟩ := h
  rw [consumeSegment]
  split_ifs with hskip
  · exact ⟨by omega,by omega⟩
  · have hsome := List.length_pos_iff.mpr (not_or.mp hskip).1
    exact ⟨by change t.gaps.truncatedLines+n ≤ u32Max; omega,
      le_trans (Nat.add_le_add_right (min_le_left ..) n) (by omega)⟩
  · dsimp only
    have hsome := List.length_pos_iff.mpr (not_or.mp hskip).1
    split_ifs
    · exact ⟨by change t.gaps.truncatedLines+n ≤ u32Max; omega,
        by change t.gaps.binaryLinesDropped+n ≤ u32Max; omega⟩
    · exact ⟨le_trans (Nat.add_le_add_right (min_le_left ..) n) (by omega),
        by change t.gaps.binaryLinesDropped+n ≤ u32Max; omega⟩

/-- The lines of a chunk, as far as the budgets let it be read. -/
theorem ScanInv.chunk {caps : TailCaps} (hwhole : Readable caps.maxLineLen whole)
    (calls : ReadCalls) (fuel : ℕ) {n : ℕ} {chunk rest : Bytes} {t : TailScan}
    (h : ScanInv caps.maxLineLen whole base t (chunk ++ rest))
    (hroom : t.Room (chunk.length+n) ∨ Few caps.maxLineLen whole) :
    ScanInv caps.maxLineLen whole base (scanChunk caps calls fuel chunk t).2
        ((scanChunk caps calls fuel chunk t).1 ++ rest) ∧
      ((scanChunk caps calls fuel chunk t).2.Room n ∨ Few caps.maxLineLen whole) := by
  induction fuel generalizing chunk t with
  | zero => exact ⟨h,hroom.imp_left fun hr => hr.mono rfl rfl (Nat.le_add_left ..)⟩
  | succ fuel ih =>
    have hlooked : ScanInv caps.maxLineLen whole base t.looked (chunk ++ rest) := h.congr rfl
    have hsplit := @List.takeWhile_append_dropWhile _ (· ≠ newlineByte) chunk
    have hleft : t.Room n ∨ Few caps.maxLineLen whole :=
      hroom.imp_left fun hr => hr.mono rfl rfl (Nat.le_add_left ..)
    rw [scanChunk]
    split_ifs
    · exact ⟨h,hleft⟩
    · exact ⟨hlooked,hleft⟩
    dsimp only
    rw [← hsplit,List.append_assoc] at hlooked
    rw [← hsplit,List.length_append] at hroom
    have hconsumed := hlooked.consume hwhole (takeWhile_noNewline chunk) (hroom.imp_left
      fun hr => hr.mono rfl rfl (by omega))
    have htaken : (consumeSegment caps.maxLineLen (chunk.takeWhile (· ≠ newlineByte))
        t.looked).Room ((chunk.dropWhile (· ≠ newlineByte)).length+n) ∨
          Few caps.maxLineLen whole :=
      hroom.imp_left fun hr => consumeSegment_room (by rw [← Nat.add_assoc]; exact hr)
    split
    · next hnil =>
      rw [hnil] at hconsumed htaken
      rw [List.length_nil,Nat.zero_add] at htaken
      refine ⟨hconsumed.commit,htaken.imp_left fun hr => ?_⟩
      split_ifs <;> exact hr
    · next b after hafter =>
      obtain rfl := dropWhile_newline hafter
      rw [hafter] at hconsumed htaken
      refine ih hconsumed.endLine (htaken.imp_left fun hr => ?_)
      rw [List.length_cons] at hr
      exact hr.mono rfl rfl (by omega)

/-- A chunk takes nothing of the byte budget. -/
theorem scanChunk_frame (caps : TailCaps) (calls : ReadCalls) (fuel : ℕ) (chunk : Bytes)
    (t : TailScan) :
    (scanChunk caps calls fuel chunk t).2.remaining = t.remaining ∧
      (scanChunk caps calls fuel chunk t).2.verifySparseTail = t.verifySparseTail := by
  have hconsume (segment : Bytes) (t : TailScan) :
      (consumeSegment caps.maxLineLen segment t).remaining = t.remaining ∧
        (consumeSegment caps.maxLineLen segment t).verifySparseTail = t.verifySparseTail := by
    rw [consumeSegment]
    split_ifs
    · exact ⟨rfl,rfl⟩
    · exact ⟨rfl,rfl⟩
    · dsimp only
      split_ifs <;> exact ⟨rfl,rfl⟩
  induction fuel generalizing chunk t with
  | zero => exact ⟨rfl,rfl⟩
  | succ fuel ih =>
    rw [scanChunk]
    split_ifs
    · exact ⟨rfl,rfl⟩
    · exact ⟨rfl,rfl⟩
    dsimp only
    split
    · split_ifs <;> exact hconsume _ _
    · obtain ⟨hremaining,hverify⟩ := ih _ _
      exact ⟨hremaining.trans (hconsume _ _).1,hverify.trans (hconsume _ _).2⟩

/-- A chunk of a file is the beginning of what is left of it. -/
theorem rest_slice {file : Bytes} (hfile : file <+: whole) {cursor n : ℕ}
    (hn : cursor+n ≤ file.length) :
    whole.drop cursor = slice file cursor n ++ whole.drop (cursor+n) := by
  obtain ⟨more,rfl⟩ := hfile
  rw [List.drop_append_of_le_length (by omega),List.drop_append_of_le_length hn,slice,
    ← List.append_assoc,← List.drop_drop,List.take_append_drop]

/-- Chunk after chunk of a file that the whole file begins with. -/
theorem ScanInv.chunks {caps : TailCaps} (hwhole : Readable caps.maxLineLen whole)
    (calls : ReadCalls) {file : Bytes} (hfile : file <+: whole) (fuel : ℕ) {t : TailScan}
    {rest : Bytes} (h : ScanInv caps.maxLineLen whole base t rest)
    (hroom : t.Room t.remaining ∨ Few caps.maxLineLen whole)
    (hverify : t.verifySparseTail = false) (hcursor : t.cursor ≤ file.length) :
    ∃ rest', ScanInv caps.maxLineLen whole base (readChunks caps calls file fuel t) rest' ∧
      (readChunks caps calls file fuel t).cursor ≤ file.length := by
  induction fuel generalizing t rest with
  | zero => exact ⟨rest,h,hcursor⟩
  | succ fuel ih =>
    rw [readChunks]
    split_ifs with hstop htime
    · exact ⟨rest,h,hcursor⟩
    · exact ⟨rest,h.congr rfl,hcursor⟩
    rw [not_or,not_le] at htime
    dsimp only
    generalize hn : min (min (min readBufSize t.looked.remaining) (file.length-t.looked.cursor))
      (calls.readLen t.looked.reads) = n
    have hplain : (t.looked.took n).verifySparseTail = false := hverify
    simp only [hplain,Bool.false_and,Bool.false_eq_true,false_and,if_false]
    split_ifs with hzero
    · exact ⟨rest,h.congr rfl,hcursor⟩
    suffices hscan : ∀ u : TailScan, u.core = t.core → u.remaining = t.remaining-n →
        u.verifySparseTail = false → ∃ rest',
          ScanInv caps.maxLineLen whole base
            (match scanChunk caps calls (slice file t.cursor n).length (slice file t.cursor n) u with
            | ([],t) => readChunks caps calls file fuel t
            | (_,t) => t.exhausted) rest' ∧
          (match scanChunk caps calls (slice file t.cursor n).length (slice file t.cursor n) u with
            | ([],t) => readChunks caps calls file fuel t
            | (_,t) => t.exhausted).cursor ≤ file.length from hscan _ rfl rfl rfl
    intro u hcore hremaining hverified
    have htaken : n ≤ t.remaining ∧ t.cursor+n ≤ file.length := by
      change min (min (min readBufSize t.remaining) (file.length-t.cursor)) _ = n at hn
      omega
    have hlength : (slice file t.cursor n).length = n := by
      rw [slice,List.length_take,List.length_drop]
      omega
    have hrest : rest = slice file t.cursor n ++ whole.drop (t.cursor+n) := by
      obtain ⟨_,_,hstands,_⟩ := h
      rw [hstands.rest,rest_slice hfile htaken.2]
    have hstart := h.congr hcore
    rw [hrest] at hstart
    have hcounts : u.Room ((slice file t.cursor n).length+u.remaining) ∨
        Few caps.maxLineLen whole := by
      simp only [TailScan.core,Prod.mk.injEq] at hcore
      exact hroom.imp_left fun hr => hr.mono hcore.2.2.2.2.2.2.2.1 hcore.2.2.2.2.2.2.2.2
        (by omega)
    obtain ⟨hscanned,hleft⟩ := hstart.chunk hwhole calls (slice file t.cursor n).length hcounts
    obtain ⟨hbudget,hflag⟩ := scanChunk_frame caps calls (slice file t.cursor n).length
      (slice file t.cursor n) u
    generalize scanChunk caps calls (slice file t.cursor n).length (slice file t.cursor n) u = out
      at *
    obtain ⟨left,v⟩ := out
    have hv : v.cursor ≤ file.length := by
      obtain ⟨_,_,hstands,_⟩ := hscanned
      have hend := hstands.length
      have hbehind := hfile.length_le
      simp only [List.length_append,List.length_drop] at hend
      omega
    cases left with
    | nil =>
      rw [← hbudget] at hleft
      exact ih hscanned hleft (hflag.trans hverified) hv
    | cons b left => exact ⟨_,hscanned.congr rfl,hv⟩

/-- A resume point has all lines in front of it delivered, and the line it stands in. -/
def Resumes (maxLineLen : ℕ) (whole : Bytes) (delivered : Tally) (offset : ℕ) (skip : Bool) :
    Prop :=
  ∃ pre line rest, Stands whole pre line rest offset ∧
    (skip = false ∧ line = [] ∧ delivered = tallyOf maxLineLen (logLines 0 [] pre) ∨
      skip = true ∧ line ≠ [] ∧ ∃ more post, newlineByte ∉ line ++ more ∧
        rest = more ++ newlineByte :: post ∧
        delivered = tallyOf maxLineLen (logLines 0 [] (pre ++ (line ++ more ++ [newlineByte]))))

theorem Tally.add_none (a : Tally) : a.add Tally.none = a := by
  simp [Tally.add,Tally.none]

/-- A read starts where the last one stopped. -/
theorem Resumes.start {offset : ℕ} {skip : Bool} (h : Resumes maxLineLen whole base offset skip)
    {t : TailScan} (hcore : t.core = (offset,[],offset,offset,[],skip,false,0,0)) :
    ScanInv maxLineLen whole base t (whole.drop offset) := by
  simp only [TailScan.core,Prod.mk.injEq] at hcore
  obtain ⟨hcursor,hline,hstart,hcommitted,hlines,hskip,hcut,htruncated,hbinary⟩ := hcore
  have htally : base.add t.tally = base := by
    rw [TailScan.tally,hlines,htruncated,hbinary]
    exact Tally.add_none base
  obtain ⟨pre,line,rest,hstands,hplain | hinside⟩ := h
  · obtain ⟨rfl,rfl,hdelivered⟩ := hplain
    have hoffset : offset = pre.length := hstands.cursor
    refine ⟨pre,[],?_,.inl ⟨hskip,hcut,hline,by simp,Nat.zero_le _,hcommitted.trans hoffset,
      hstart.trans hoffset,htally.trans hdelivered⟩⟩
    rw [← hstands.rest,hcursor]
    exact hstands
  · obtain ⟨rfl,hne,more,post,hmore,hrest,hdelivered⟩ := hinside
    rw [← hstands.rest]
    refine ⟨pre,line,hcursor ▸ hstands,.inr ⟨hskip,hline,hne,by omega,more,post,hmore,hrest,
      htally.trans hdelivered⟩⟩

/-- A read stops at a resume point. -/
theorem ScanInv.resumes {t : TailScan} {rest : Bytes} (h : ScanInv maxLineLen whole base t rest)
    {size : ℕ} (hsize : t.cursor ≤ size) :
    Resumes maxLineLen whole (base.add t.tally) (t.resumeOffset size)
        (t.skipUntilNewline || t.truncatedCurrent) ∧
      t.resumeOffset size ≤ size := by
  refine ⟨?_,min_le_right ..⟩
  obtain ⟨pre,line,hstands,hreading | hskipping⟩ := h
  · have hoffset : t.resumeOffset size = pre.length := by
      rw [TailScan.resumeOffset,hreading.skip,hreading.whole,if_neg (by simp)]
      split_ifs with hnil
      · have hempty : line = [] := hreading.held.symm.trans hnil
        rw [min_eq_left hsize,hstands.cursor,hempty]
        rfl
      · rw [hreading.committed]
        have hcursor := hstands.cursor
        omega
    rw [hoffset,hreading.skip,hreading.whole]
    exact ⟨pre,[],line ++ rest,⟨hstands.boundary,by simp,hstands.split,rfl⟩,
      .inl ⟨rfl,rfl,hreading.tally⟩⟩
  · have hoffset : t.resumeOffset size = t.cursor := by
      rw [TailScan.resumeOffset,if_pos (.inl hskipping.skip),max_eq_right hskipping.committed,
        min_eq_left hsize]
    rw [hoffset,hskipping.skip]
    exact ⟨pre,line,rest,hstands,.inr ⟨rfl,hskipping.started,hskipping.tally⟩⟩

/-- The counts of a batch. -/
def TailBatch.tally (batch : TailBatch) : Tally :=
  ⟨batch.lines,batch.gaps.truncatedLines,batch.gaps.binaryLinesDropped⟩

theorem ScanInv.finish {caps : TailCaps} {calls : ReadCalls} {file : LogFile} {t : TailScan}
    {rest : Bytes} (h : ScanInv maxLineLen whole base t rest)
    (hcursor : t.cursor ≤ file.bytes.length) :
    ∃ offset skip, (finishScan caps calls file t).nextState = file.nextState offset skip ∧
      offset ≤ file.bytes.length ∧
      Resumes maxLineLen whole (base.add (finishScan caps calls file t).tally) offset skip := by
  obtain ⟨hresumes,hle⟩ := h.resumes hcursor
  rw [finishScan]
  split_ifs <;> exact ⟨_,_,rfl,hle,hresumes⟩

/-- One read of the file, from a resume point to the next. -/
theorem Resumes.read {caps : TailCaps} (hwhole : Readable caps.maxLineLen whole)
    (hcount : caps.maxBytes ≤ u32Max ∨ Few caps.maxLineLen whole) {calls : ReadCalls}
    {startAtBeginning : Bool} {file : LogFile} {state : Option TailState} {offset rotations : ℕ}
    {skip : Bool} (hfile : file.bytes <+: whole)
    (hinitial : initialOffset file startAtBeginning state = (offset,skip,rotations))
    (hoffset : offset ≤ file.bytes.length)
    (hholes : ∀ c < file.bytes.length, calls.dataAt c = some c)
    (hbacklog : file.bytes.length-offset ≤ caps.maxBacklogBytes)
    (h : Resumes caps.maxLineLen whole base offset skip) :
    ∃ offset' skip',
      (readOpenedFile caps calls startAtBeginning file state).nextState =
        file.nextState offset' skip' ∧
      offset' ≤ file.bytes.length ∧
      Resumes caps.maxLineLen whole
        (base.add (readOpenedFile caps calls startAtBeginning file state).tally) offset' skip' := by
  rw [readOpenedFile,hinitial]
  dsimp only
  by_cases hend : file.bytes.length ≤ offset
  · rw [if_pos hend]
    refine ⟨offset,skip,rfl,hoffset,?_⟩
    change Resumes _ _ (base.add Tally.none) _ _
    rw [Tally.add_none]
    exact h
  have hguard : applyBacklogGuard caps file.bytes.length offset skip = (offset,skip,0) :=
    if_pos (.inl hbacklog)
  rw [if_neg hend,hguard]
  dsimp only
  rw [if_neg hend,hholes offset (not_le.mp hend)]
  have hcore : (startScan caps offset skip (some offset) rotations 0).core =
      (offset,[],offset,offset,[],skip,false,0,0) := by
    simp [TailScan.core,startScan,TailGaps.default]
  have hroom : (startScan caps offset skip (some offset) rotations 0).Room caps.maxBytes ∨
      Few caps.maxLineLen whole := by
    refine hcount.imp_left fun hle => ?_
    simp [TailScan.Room,startScan,TailGaps.default,hle]
  have hcursor : (startScan caps offset skip (some offset) rotations 0).cursor ≤
      file.bytes.length := by
    rw [startScan,Option.getD_some,max_self]
    exact hoffset
  obtain ⟨rest,hscanned,hle⟩ := (h.start hcore).chunks hwhole calls hfile caps.maxBytes hroom
    rfl hcursor
  exact hscanned.finish hle

/-- Lines start where the reading starts, or behind it. -/
theorem logLines_start {start : ℕ} {acc bs : Bytes} {l : ℕ × Bytes}
    (h : l ∈ logLines start acc bs) : start ≤ l.1 ∧ l.1 < start+acc.length+bs.length := by
  induction bs generalizing start acc with
  | nil => cases h
  | cons b bs ih =>
    rw [logLines] at h
    rw [List.length_cons]
    split_ifs at h
    · rcases List.mem_cons.mp h with rfl | h
      · exact ⟨le_refl _,by omega⟩
      · obtain ⟨hle,hlt⟩ := ih h
        rw [List.length_nil] at hlt
        exact ⟨by omega,by omega⟩
    · obtain ⟨hle,hlt⟩ := ih h
      rw [List.length_append,List.length_singleton] at hlt
      exact ⟨hle,by omega⟩

/-- The lines of a part that ends with a newline are those that start in it. -/
theorem EndsLine.filter_lines {pre : Bytes} (h : EndsLine pre) (rest : Bytes) {offset : ℕ}
    (hlines : ∀ l ∈ logLines 0 [] pre, l.1 < offset) (hoffset : offset ≤ pre.length) :
    (logLines 0 [] (pre ++ rest)).filter (fun l => decide (l.1 < offset)) =
      logLines 0 [] pre := by
  rw [h.split_lines,List.filter_append,
    List.filter_eq_self.mpr fun l hl => decide_eq_true (hlines l hl),
    List.filter_eq_nil_iff.mpr fun l hl => ?_,List.append_nil]
  have hle := (logLines_start hl).1
  rw [decide_eq_true_iff]
  omega

/-- The lines in front of a resume point, and only they, start in front of it. -/
theorem Resumes.delivered {delivered : Tally} {offset : ℕ} {skip : Bool}
    (h : Resumes maxLineLen whole delivered offset skip) :
    delivered =
      tallyOf maxLineLen ((logLines 0 [] whole).filter fun l => decide (l.1 < offset)) := by
  obtain ⟨pre,line,rest,hstands,hplain | hinside⟩ := h
  · obtain ⟨-,rfl,rfl⟩ := hplain
    have hoffset : offset = pre.length := hstands.cursor
    rw [hstands.split,List.nil_append,hstands.boundary.filter_lines rest ?_ hoffset.le]
    intro l hl
    have hlt := (logLines_start hl).2
    rw [hoffset]
    simpa using hlt
  · obtain ⟨-,hne,more,post,hmore,rfl,rfl⟩ := hinside
    have hsplit : whole = pre ++ (line ++ more ++ [newlineByte]) ++ post := by
      rw [hstands.split]
      simp
    have hsome := List.length_pos_iff.mpr hne
    have hoffset := hstands.cursor
    rw [hsplit,(EndsLine.push pre (line ++ more)).filter_lines post ?_ ?_]
    · rw [hstands.boundary.push_lines hmore]
      intro l hl
      rcases List.mem_append.mp hl with hl | hl
      · have hlt := (logLines_start hl).2
        rw [List.length_nil] at hlt
        omega
      · obtain rfl := List.mem_singleton.mp hl
        change pre.length < offset
        omega
    · simp only [List.length_append]
      omega

end Scan

/-- One call of the tailer: its budgets, what the system answers, the file as it is by now, and
whether the next state goes through the state file. -/
structure TailRead where
  caps : TailCaps
  calls : ReadCalls
  file : LogFile
  persisted : Bool

/-- A log file with the position in it and all that has been delivered. -/
structure TailRun where
  bytes : Bytes
  state : Option TailState
  delivered : Tally

def TailRun.start : TailRun := ⟨[],none,Tally.none⟩

/-- Where the next read resumes. -/
def TailRun.offset (run : TailRun) : ℕ := run.state.elim 0 fun state => state.offset.toNat

def TailRun.read (run : TailRun) (r : TailRead) : TailRun :=
  let batch := readOpenedFile r.caps r.calls true r.file run.state
  { bytes := r.file.bytes
    state := if r.persisted then parseState batch.nextState.render else some batch.nextState
    delivered := run.delivered.add batch.tally }

/-- The file has only grown, has no holes and is not too far ahead; the position survives. -/
structure TailRun.Allows (run : TailRun) (source : LogFile) (maxLineLen budget : ℕ)
    (r : TailRead) : Prop where
  path : r.file.path = source.path
  parserKind : r.file.parserKind = source.parserKind
  dev : r.file.dev = source.dev
  inode : r.file.inode = source.inode
  grows : run.bytes <+: r.file.bytes
  holes : ∀ c < r.file.bytes.length, r.calls.dataAt c = some c
  backlog : r.file.bytes.length-run.offset ≤ r.caps.maxBacklogBytes
  lineLen : r.caps.maxLineLen = maxLineLen
  budget : r.caps.maxBytes ≤ budget
  persists : r.persisted = true → PathPersists source.path

/-- Every sequence of reads, with growth between them. -/
inductive TailRuns (source : LogFile) (maxLineLen budget : ℕ) : TailRun → Prop
  | start : TailRuns source maxLineLen budget .start
  | read {run : TailRun} {r : TailRead} (runs : TailRuns source maxLineLen budget run)
      (allowed : run.Allows source maxLineLen budget r) :
      TailRuns source maxLineLen budget (run.read r)

theorem LogFile.offset_fits {file : LogFile} {offset : ℕ} (hfits : offset ≤ file.bytes.length) :
    (UInt64.ofNat offset).toNat = offset := by
  have hlarge := hfits.trans file.fits
  exact UInt64.toNat_ofNat_of_lt' (by simpa [u64Max,UInt64.size] using Nat.lt_succ_of_le hlarge)

theorem initialOffset_resumed {file : LogFile} {offset : ℕ} (hfits : offset ≤ file.bytes.length)
    (startAtBeginning skip : Bool) :
    initialOffset file startAtBeginning (some (file.nextState offset skip)) = (offset,skip,0) := by
  rw [initialOffset,LogFile.nextState,if_neg (by simp)]
  dsimp only
  rw [file.offset_fits hfits,if_pos ⟨rfl,rfl,hfits⟩]

/-- Between two reads the position is a resume point of the file as it goes on. -/
structure TailRun.Follows (run : TailRun) (source : LogFile) (maxLineLen : ℕ) (whole : Bytes)
    (skip : Bool) : Prop where
  state : run.state = none ∧ skip = false ∨ run.state = some (source.nextState run.offset skip)
  offset : run.offset ≤ run.bytes.length
  resumes : Resumes maxLineLen whole run.delivered run.offset skip

theorem TailRun.start_follows (source : LogFile) (maxLineLen : ℕ) (whole : Bytes) :
    TailRun.start.Follows source maxLineLen whole false where
  state := .inl ⟨rfl,rfl⟩
  offset := le_refl _
  resumes := ⟨[],[],whole,⟨.inl rfl,by simp,rfl,rfl⟩,.inl ⟨rfl,rfl,rfl⟩⟩

theorem TailRun.Follows.read {source : LogFile} {maxLineLen budget : ℕ} {run : TailRun}
    {r : TailRead} {whole : Bytes} {skip : Bool} (h : run.Follows source maxLineLen whole skip)
    (hallow : run.Allows source maxLineLen budget r) (hwhole : Readable maxLineLen whole)
    (hcount : budget ≤ u32Max ∨ Few maxLineLen whole) (hfile : r.file.bytes <+: whole) :
    ∃ skip, (run.read r).Follows source maxLineLen whole skip := by
  have hsame (offset : ℕ) (skip : Bool) :
      r.file.nextState offset skip = source.nextState offset skip := by
    rw [LogFile.nextState,LogFile.nextState,hallow.path,hallow.parserKind,hallow.dev,hallow.inode]
  have hfits : run.offset ≤ r.file.bytes.length := h.offset.trans hallow.grows.length_le
  have hinitial : initialOffset r.file true run.state = (run.offset,skip,0) := by
    rcases h.state with ⟨hnone,rfl⟩ | hsome
    · rw [TailRun.offset,hnone]
      rfl
    · rw [hsome,← hsame]
      exact initialOffset_resumed hfits true skip
  have hresumes := h.resumes
  rw [← hallow.lineLen] at hwhole hcount hresumes
  obtain ⟨offset,skip,hnext,hoffset,hafter⟩ := hresumes.read hwhole
    (hcount.imp_left hallow.budget.trans) hfile hinitial hfits hallow.holes hallow.backlog
  have hhanded : (run.read r).state = some (source.nextState offset skip) := by
    rw [TailRun.read,hnext,hsame]
    dsimp only
    split_ifs with hpersisted
    · exact TailState.parse_render (hallow.persists hpersisted)
    · rfl
  have hposition : (run.read r).offset = offset := by
    rw [TailRun.offset,hhanded]
    exact r.file.offset_fits hoffset
  rw [hallow.lineLen] at hafter
  refine ⟨skip,.inr ?_,?_,?_⟩
  · rw [hposition,hhanded]
  · rw [hposition]
    exact hoffset
  · rw [hposition]
    exact hafter

theorem TailRuns.follows {source : LogFile} {maxLineLen budget : ℕ} {run : TailRun}
    (h : TailRuns source maxLineLen budget run) {whole : Bytes}
    (hwhole : Readable maxLineLen whole) (hcount : budget ≤ u32Max ∨ Few maxLineLen whole)
    (hfile : run.bytes <+: whole) : ∃ skip, run.Follows source maxLineLen whole skip := by
  induction h with
  | start => exact ⟨false,TailRun.start_follows source maxLineLen whole⟩
  | read _ hallow ih =>
    obtain ⟨skip,hfollows⟩ := ih (hallow.grows.trans hfile)
    exact hfollows.read hallow hwhole hcount hfile

/-- Whatever the growth, the chunks, the budgets and the clock, the lines delivered so far are
those that start in front of the resume point. -/
theorem tail_delivers_once {source : LogFile} {maxLineLen budget : ℕ} {run : TailRun}
    (h : TailRuns source maxLineLen budget run) {whole : Bytes} (hfile : run.bytes <+: whole)
    (hwhole : Readable maxLineLen whole) (hcount : budget ≤ u32Max ∨ Few maxLineLen whole) :
    run.offset ≤ run.bytes.length ∧
      run.delivered =
        tallyOf maxLineLen ((logLines 0 [] whole).filter fun l => decide (l.1 < run.offset)) := by
  obtain ⟨skip,hfollows⟩ := h.follows hwhole hcount hfile
  exact ⟨hfollows.offset,hfollows.resumes.delivered⟩

/-- A small log file, read in calls of `n` bytes with lines cut after two. -/
def sampleFile (bytes : Bytes) (fits : bytes.length ≤ u64Max) : LogFile :=
  ⟨[112],.stderr,1,2,bytes,fits⟩

def sampleRead (file : LogFile) (n : ℕ) (persisted : Bool) : TailRead :=
  ⟨⟨4,16,2,16,16⟩,⟨fun _ => n,fun _ => true,some⟩,file,persisted⟩

theorem sampleRead_runs (file : LogFile) (hsmall : file.bytes.length ≤ 16) (n : ℕ)
    {persisted : Bool} (hpersists : persisted = true → PathPersists file.path) :
    TailRuns file 2 16 (TailRun.start.read (sampleRead file n persisted)) :=
  .read .start ⟨rfl,rfl,rfl,rfl,List.nil_prefix,fun _ _ => rfl,(Nat.sub_le ..).trans hsmall,rfl,
    le_refl _,hpersists⟩

/-- A cut line, a dropped one, a short one and the beginning of the next. -/
def plainLog : LogFile := sampleFile [97,98,99,10,0,10,100,10,101] (by decide)

theorem tail_delivers_once_plain :
    (TailRun.start.read (sampleRead plainLog 3 true)).delivered =
      ⟨[⟨0,[97,98],true⟩,⟨6,[100],false⟩],1,1⟩ := by
  have hpath : PathPersists plainLog.path := ⟨['p'],by decide,by decide,by decide⟩
  refine (tail_delivers_once (sampleRead_runs plainLog (by decide) 3 fun _ => hpath)
    (List.prefix_append _ [10]) ⟨.inr ⟨plainLog.bytes,rfl⟩,?_⟩ (.inl (by decide))).2.trans ?_
  · change ∀ l ∈ logLines 0 [] (plainLog.bytes ++ [10]), 0 ∈ l.2 → 0 ∈ l.2.take 3
    decide
  · decide

/-- A line with a zero behind the place where it is cut. -/
def binaryLog : LogFile := sampleFile [97,98,99,0,10] (by decide)

/-- In calls of three bytes the binary line is delivered, in calls of eight it is dropped. -/
theorem cut_line_delivered :
    TailRuns binaryLog 2 16 (TailRun.start.read (sampleRead binaryLog 3 false)) ∧
      TailRuns binaryLog 2 16 (TailRun.start.read (sampleRead binaryLog 8 false)) ∧
      (TailRun.start.read (sampleRead binaryLog 3 false)).offset = 5 ∧
      (TailRun.start.read (sampleRead binaryLog 8 false)).offset = 5 ∧
      tallyOf 2 ((logLines 0 [] binaryLog.bytes).filter fun l => decide (l.1 < 5)) = ⟨[],0,1⟩ ∧
      (TailRun.start.read (sampleRead binaryLog 3 false)).delivered =
        ⟨[⟨0,[97,98],true⟩],1,0⟩ ∧
      (TailRun.start.read (sampleRead binaryLog 8 false)).delivered = ⟨[],0,1⟩ :=
  ⟨sampleRead_runs binaryLog (by decide) 3 nofun,sampleRead_runs binaryLog (by decide) 8 nofun,
    by decide⟩

end PgKronika
