import Mathlib
import PgKronika.LogTail

/-! A log path whose file is replaced, truncated or skipped in part. Every complete line of the new
content is delivered, dropped and counted, or starts in a counted skip, unless a read skips a line
that it has not begun. -/
namespace PgKronika

open ByteCodec CheckedArith

/-- What has become of the lines of a file: delivered, dropped, or in a range that was skipped. -/
structure TailLedger where
  lines : List TailLine
  dropped : List ℕ
  skipped : List (ℕ × ℕ)

def TailLedger.add (a b : TailLedger) : TailLedger :=
  ⟨a.lines ++ b.lines,a.dropped ++ b.dropped,a.skipped ++ b.skipped⟩

/-- The line is empty, delivered, dropped as a binary one, or starts in a skip. -/
def TailLedger.Accounts (maxLineLen : ℕ) (ledger : TailLedger) (l : ℕ × Bytes) : Prop :=
  l.2 = [] ∨ ⟨l.1,l.2.take maxLineLen,decide (maxLineLen < l.2.length)⟩ ∈ ledger.lines ∨
    (0 ∈ l.2 ∧ l.1 ∈ ledger.dropped) ∨ ∃ range ∈ ledger.skipped, range.1 ≤ l.1 ∧ l.1 < range.2

section Scan

variable {maxLineLen base : ℕ} {bytes : Bytes} {past : TailLedger}

theorem TailLedger.Accounts.mono {ledger ledger' : TailLedger} {l : ℕ × Bytes}
    (h : ledger.Accounts maxLineLen l) (hlines : ledger.lines ⊆ ledger'.lines)
    (hdropped : ledger.dropped ⊆ ledger'.dropped) (hskipped : ledger.skipped ⊆ ledger'.skipped) :
    ledger'.Accounts maxLineLen l := by
  rcases h with h | h | ⟨hzero,h⟩ | ⟨range,hmem,h⟩
  · exact .inl h
  · exact .inr (.inl (hlines h))
  · exact .inr (.inr (.inl ⟨hzero,hdropped h⟩))
  · exact .inr (.inr (.inr ⟨range,hskipped hmem,h⟩))

/-- What a running scan adds. -/
def TailScan.ledger (past : TailLedger) (dropped : List ℕ) (t : TailScan) : TailLedger :=
  past.add ⟨t.lines,dropped,[]⟩

/-- Inside a line that may still turn out any way. -/
structure HoldsLine (maxLineLen start : ℕ) (line : Bytes) (t : TailScan) : Prop where
  skip : t.skipUntilNewline = false
  whole : t.truncatedCurrent = false
  held : t.line = line
  text : 0 ∉ line
  short : line.length ≤ maxLineLen
  committed : t.committed = start
  lineStart : t.lineStart = start

/-- Inside a line that is accounted for however it goes on, or in front of an empty one. -/
structure SkipsLine (maxLineLen start : ℕ) (ledger : TailLedger) (line rest : Bytes)
    (t : TailScan) : Prop where
  skip : t.skipUntilNewline = true
  held : t.line = []
  committed : t.committed ≤ t.cursor
  decided : (∀ more, ledger.Accounts maxLineLen (start,line ++ more)) ∨
    line = [] ∧ rest.head? = some newlineByte

/-- The complete lines in front of the cursor are accounted for. -/
structure LinesAccounted (maxLineLen base : ℕ) (bytes : Bytes) (past : TailLedger) (pre line rest : Bytes)
    (dropped : List ℕ) (t : TailScan) : Prop where
  stands : Stands (bytes.drop base) pre line rest (t.cursor-base)
  behind : base ≤ t.cursor
  binary : t.gaps.binaryLinesDropped = min dropped.length u32Max
  lines : ∀ l ∈ logLines base [] pre, (t.ledger past dropped).Accounts maxLineLen l
  mode : HoldsLine maxLineLen (base+pre.length) line t ∨
    SkipsLine maxLineLen (base+pre.length) (t.ledger past dropped) line rest t

def ScanAccounts (maxLineLen base : ℕ) (bytes : Bytes) (past : TailLedger) (t : TailScan)
    (rest : Bytes) : Prop :=
  ∃ pre line dropped, LinesAccounted maxLineLen base bytes past pre line rest dropped t

/-- One line more. -/
theorem EndsLine.push_lines_from {pre line : Bytes} (h : EndsLine pre) (start : ℕ)
    (hline : newlineByte ∉ line) :
    logLines start [] (pre ++ (line ++ [newlineByte])) =
      logLines start [] pre ++ [(start+pre.length,line)] := by
  rcases h with rfl | ⟨a,rfl⟩
  · rw [List.nil_append,logLines_line hline]
    rfl
  · rw [logLines_closed,logLines_line hline]
    rfl

theorem LinesAccounted.congr {pre line rest : Bytes} {dropped : List ℕ} {t t' : TailScan}
    (h : LinesAccounted maxLineLen base bytes past pre line rest dropped t) (hcore : t'.core = t.core) :
    LinesAccounted maxLineLen base bytes past pre line rest dropped t' := by
  simp only [TailScan.core,Prod.mk.injEq] at hcore
  obtain ⟨hcursor,hline,hstart,hcommitted,hlines,hskip,hcut,-,hbinary⟩ := hcore
  have hledger : t'.ledger past dropped = t.ledger past dropped := by
    rw [TailScan.ledger,TailScan.ledger,hlines]
  refine ⟨hcursor ▸ h.stands,hcursor ▸ h.behind,hbinary ▸ h.binary,hledger ▸ h.lines,?_⟩
  rcases h.mode with hholds | hskips
  · exact .inl ⟨hskip.trans hholds.skip,hcut.trans hholds.whole,hline.trans hholds.held,hholds.text,
      hholds.short,hcommitted.trans hholds.committed,hstart.trans hholds.lineStart⟩
  · exact .inr ⟨hskip.trans hskips.skip,hline.trans hskips.held,by
      rw [hcommitted,hcursor]; exact hskips.committed,hledger ▸ hskips.decided⟩

theorem subset_ledger {t t' : TailScan} {dropped dropped' : List ℕ} {l : ℕ × Bytes}
    (h : (t.ledger past dropped).Accounts maxLineLen l) (hlines : t.lines ⊆ t'.lines)
    (hdropped : dropped ⊆ dropped') : (t'.ledger past dropped').Accounts maxLineLen l :=
  h.mono (List.append_subset.mpr ⟨by simp [TailScan.ledger,TailLedger.add],
      fun _ hx => List.mem_append_right _ (hlines hx)⟩)
    (List.append_subset.mpr ⟨by simp [TailScan.ledger,TailLedger.add],
      fun _ hx => List.mem_append_right _ (hdropped hx)⟩) fun _ hx => hx

theorem saturatingInc_min {n m : ℕ} (h : n = min m u32Max) : saturatingInc n = min (m+1) u32Max := by
  rw [saturatingInc,h]
  omega

/-- A part of a line, without its newline. -/
theorem ScanAccounts.consume {t : TailScan} {segment rest : Bytes}
    (h : ScanAccounts maxLineLen base bytes past t (segment ++ rest))
    (hsegment : newlineByte ∉ segment) :
    ScanAccounts maxLineLen base bytes past
      { consumeSegment maxLineLen segment t with cursor := t.cursor+segment.length } rest := by
  obtain ⟨pre,line,dropped,h⟩ := h
  have hbehind := h.behind
  have hstands : Stands (bytes.drop base) pre (line ++ segment) rest
      (t.cursor+segment.length-base) := by
    refine ⟨h.stands.boundary,by simp [h.stands.oneLine,hsegment],?_,?_⟩
    · rw [h.stands.split,List.append_assoc line]
    · have hcursor := h.stands.cursor
      rw [List.length_append]
      omega
  by_cases hnil : segment = []
  · subst hnil
    rw [consumeSegment,if_pos (.inl rfl)]
    rw [List.append_nil] at hstands
    refine ⟨pre,line,dropped,hstands,Nat.le_add_right_of_le hbehind,h.binary,h.lines,?_⟩
    rcases h.mode with hholds | hskips
    · exact .inl ⟨hholds.skip,hholds.whole,hholds.held,hholds.text,hholds.short,hholds.committed,
        hholds.lineStart⟩
    · exact .inr ⟨hskips.skip,hskips.held,hskips.committed,hskips.decided⟩
  rcases h.mode with hholds | hskips
  · have hstart : t.committed ≤ t.cursor+segment.length := by
      have hcursor := h.stands.cursor
      have hcommitted := hholds.committed
      omega
    rw [consumeSegment,if_neg (by simp [hnil,hholds.skip])]
    split_ifs with hbin
    · -- The line is dropped and counted, whatever follows.
      refine ⟨pre,line ++ segment,dropped ++ [base+pre.length],hstands,
        Nat.le_add_right_of_le hbehind,?_,fun l hl => ?_,.inr ⟨rfl,rfl,hstart,.inl fun more => ?_⟩⟩
      · rw [List.length_append]
        exact saturatingInc_min h.binary
      · exact subset_ledger (h.lines l hl) (fun _ => id) (List.subset_append_left _ _)
      · exact .inr (.inr (.inl ⟨by simp [hbin],by simp [TailScan.ledger,TailLedger.add]⟩))
    · dsimp only
      have htext : 0 ∉ line ++ segment := by simp [hholds.text,hbin]
      split_ifs with hfits
      · rw [hholds.held] at hfits
        refine ⟨pre,line ++ segment,dropped,hstands,Nat.le_add_right_of_le hbehind,h.binary,h.lines,
          .inl ⟨hholds.skip,hholds.whole,?_,htext,?_,hholds.committed,hholds.lineStart⟩⟩
        · exact congrArg (· ++ segment) hholds.held
        · have hshort := hholds.short
          rw [List.length_append]
          omega
      · -- The line is delivered as far as it may be, whatever follows.
        rw [hholds.held] at hfits
        have hshort := hholds.short
        refine ⟨pre,line ++ segment,dropped,hstands,Nat.le_add_right_of_le hbehind,h.binary,
          fun l hl => ?_,.inr ⟨rfl,rfl,hstart,.inl fun more => .inr (.inl ?_)⟩⟩
        · exact subset_ledger (h.lines l hl) (List.subset_append_left _ _) fun _ => id
        · have hlong : maxLineLen < (line ++ segment ++ more).length := by
            rw [List.length_append,List.length_append]
            omega
          have htake : (line ++ segment ++ more).take maxLineLen =
              line ++ segment.take (maxLineLen-line.length) := by
            rw [List.append_assoc,List.take_append,List.take_of_length_le hshort,
              List.take_append_of_le_length (by omega)]
          rw [htake,decide_eq_true hlong,hholds.held,hholds.lineStart]
          simp [TailScan.ledger,TailLedger.add]
  · rw [consumeSegment,if_pos (.inr hskips.skip)]
    refine ⟨pre,line ++ segment,dropped,hstands,Nat.le_add_right_of_le hbehind,h.binary,h.lines,
      .inr ⟨hskips.skip,hskips.held,Nat.le_add_right_of_le hskips.committed,?_⟩⟩
    rcases hskips.decided with hdecided | ⟨-,hhead⟩
    · refine .inl fun more => ?_
      rw [List.append_assoc]
      exact hdecided _
    · -- In front of an empty line there is nothing but its newline.
      cases segment with
      | nil => exact absurd rfl hnil
      | cons b segment =>
        obtain rfl : b = newlineByte := by simpa using hhead
        simp at hsegment

/-- The newline of a line. -/
theorem ScanAccounts.endLine {t : TailScan} {rest : Bytes}
    (h : ScanAccounts maxLineLen base bytes past t (newlineByte :: rest)) :
    ScanAccounts maxLineLen base bytes past t.endLine rest := by
  obtain ⟨pre,line,dropped,h⟩ := h
  have hbehind := h.behind
  have hcursor := h.stands.cursor
  have hlength : t.cursor+1 = base+(pre ++ (line ++ [newlineByte])).length := by
    simp only [List.length_append,List.length_singleton]
    omega
  have hlines : t.lines ⊆ t.endLine.lines := by
    rw [TailScan.endLine]
    dsimp only
    split_ifs
    · exact List.subset_append_left _ _
    · exact fun _ => id
  have hline : (t.endLine.ledger past dropped).Accounts maxLineLen (base+pre.length,line) := by
    rcases h.mode with hholds | hskips
    · by_cases hne : line = []
      · exact .inl hne
      · refine .inr (.inl ?_)
        rw [List.take_of_length_le hholds.short,decide_eq_false (not_lt.mpr hholds.short)]
        simp [TailScan.ledger,TailLedger.add,TailScan.endLine,hholds.skip,hholds.whole,hholds.held,hne,
          hholds.lineStart]
    · rcases hskips.decided with hdecided | ⟨hnil,-⟩
      · have hwhole := hdecided []
        rw [List.append_nil] at hwhole
        exact subset_ledger hwhole hlines fun _ => id
      · exact .inl hnil
  refine ⟨pre ++ (line ++ [newlineByte]),[],dropped,⟨EndsLine.push pre line,by simp,?_,?_⟩,
    Nat.le_add_right_of_le hbehind,h.binary,fun l hl => ?_,
    .inl ⟨rfl,rfl,rfl,by simp,Nat.zero_le _,hlength,hlength⟩⟩
  · rw [h.stands.split]
    simp
  · change t.cursor+1-base = _
    rw [hlength,List.length_nil]
    omega
  · rw [h.stands.boundary.push_lines_from base h.stands.oneLine] at hl
    rcases List.mem_append.mp hl with hl | hl
    · exact subset_ledger (h.lines l hl) hlines fun _ => id
    · obtain rfl := List.mem_singleton.mp hl
      exact hline

/-- Between two parts nothing is committed that is not accounted for. -/
theorem ScanAccounts.commit {t : TailScan} {rest : Bytes}
    (h : ScanAccounts maxLineLen base bytes past t rest) :
    ScanAccounts maxLineLen base bytes past
      (if t.skipUntilNewline ∨ t.truncatedCurrent then { t with committed := t.cursor } else t)
      rest := by
  split_ifs with hskip
  · obtain ⟨pre,line,dropped,h⟩ := h
    refine ⟨pre,line,dropped,h.stands,h.behind,h.binary,h.lines,?_⟩
    rcases h.mode with hholds | hskips
    · rw [hholds.skip,hholds.whole] at hskip
      simp at hskip
    · exact .inr ⟨hskips.skip,hskips.held,le_refl _,hskips.decided⟩
  · exact h

theorem ScanAccounts.congr {t t' : TailScan} {rest : Bytes}
    (h : ScanAccounts maxLineLen base bytes past t rest) (hcore : t'.core = t.core) :
    ScanAccounts maxLineLen base bytes past t' rest := by
  obtain ⟨pre,line,dropped,h⟩ := h
  exact ⟨pre,line,dropped,h.congr hcore⟩

/-- The lines of a chunk, as far as the budgets let it be read. -/
theorem ScanAccounts.chunk {caps : TailCaps} (calls : ReadCalls) (fuel : ℕ) {chunk rest : Bytes}
    {t : TailScan} (h : ScanAccounts caps.maxLineLen base bytes past t (chunk ++ rest)) :
    ScanAccounts caps.maxLineLen base bytes past (scanChunk caps calls fuel chunk t).2
      ((scanChunk caps calls fuel chunk t).1 ++ rest) := by
  induction fuel generalizing chunk t with
  | zero => exact h
  | succ fuel ih =>
    have hlooked : ScanAccounts caps.maxLineLen base bytes past t.looked (chunk ++ rest) := h.congr rfl
    have hsplit := @List.takeWhile_append_dropWhile _ (· ≠ newlineByte) chunk
    rw [scanChunk]
    split_ifs
    · exact h
    · exact hlooked
    dsimp only
    rw [← hsplit,List.append_assoc] at hlooked
    have hconsumed := hlooked.consume (takeWhile_noNewline chunk)
    split
    · next hnil =>
      rw [hnil] at hconsumed
      exact hconsumed.commit
    · next b after hafter =>
      obtain rfl := dropWhile_newline hafter
      rw [hafter] at hconsumed
      exact ih hconsumed.endLine

theorem ScanAccounts.rest {t : TailScan} {rest : Bytes}
    (h : ScanAccounts maxLineLen base bytes past t rest) : rest = bytes.drop t.cursor := by
  obtain ⟨pre,line,dropped,h⟩ := h
  have hbehind := h.behind
  rw [h.stands.rest,List.drop_drop]
  congr 1
  omega

/-- A position between two reads: the complete lines in front of it are accounted for, and so is the
line that it stands in. -/
structure Settled (maxLineLen base : ℕ) (bytes : Bytes) (ledger : TailLedger) (pre line rest : Bytes)
    (offset : ℕ) (skip : Bool) : Prop where
  stands : Stands (bytes.drop base) pre line rest (offset-base)
  behind : base ≤ offset
  within : offset ≤ bytes.length
  lines : ∀ l ∈ logLines base [] pre, ledger.Accounts maxLineLen l
  mode : line = [] ∨ skip = true ∧ ∀ more, ledger.Accounts maxLineLen (base+pre.length,line ++ more)

def SettledAt (maxLineLen base : ℕ) (bytes : Bytes) (ledger : TailLedger) (offset : ℕ) (skip : Bool) :
    Prop :=
  ∃ pre line rest, Settled maxLineLen base bytes ledger pre line rest offset skip

/-- The file has grown. -/
theorem SettledAt.grow {ledger : TailLedger} {bytes' : Bytes} {offset : ℕ} {skip : Bool}
    (h : SettledAt maxLineLen base bytes ledger offset skip) (hgrow : bytes <+: bytes') :
    SettledAt maxLineLen base bytes' ledger offset skip := by
  obtain ⟨pre,line,rest,h⟩ := h
  obtain ⟨more,rfl⟩ := hgrow
  have hbase := h.behind.trans h.within
  refine ⟨pre,line,rest ++ more,⟨h.stands.boundary,h.stands.oneLine,?_,h.stands.cursor⟩,h.behind,
    h.within.trans (by simp),h.lines,h.mode⟩
  rw [List.drop_append_of_le_length hbase,h.stands.split]
  simp

theorem SettledAt.mono {ledger ledger' : TailLedger} {offset : ℕ} {skip : Bool}
    (h : SettledAt maxLineLen base bytes ledger offset skip) (hlines : ledger.lines ⊆ ledger'.lines)
    (hdropped : ledger.dropped ⊆ ledger'.dropped) (hskipped : ledger.skipped ⊆ ledger'.skipped) :
    SettledAt maxLineLen base bytes ledger' offset skip := by
  obtain ⟨pre,line,rest,h⟩ := h
  exact ⟨pre,line,rest,h.stands,h.behind,h.within,
    fun l hl => (h.lines l hl).mono hlines hdropped hskipped,
    h.mode.imp_right fun ⟨hskip,hline⟩ => ⟨hskip,fun more => (hline more).mono hlines hdropped hskipped⟩⟩

/-- A new file has no line in front of its start. -/
theorem settledAt_start (ledger : TailLedger) (hbase : base ≤ bytes.length) (skip : Bool) :
    SettledAt maxLineLen base bytes ledger base skip :=
  ⟨[],[],bytes.drop base,⟨.inl rfl,by simp,rfl,by simp⟩,le_refl _,hbase,by simp [logLines],.inl rfl⟩

/-- The last line break of some bytes. -/
theorem exists_lastLine (bs : Bytes) :
    ∃ pre line, bs = pre ++ line ∧ EndsLine pre ∧ newlineByte ∉ line := by
  induction bs using List.reverseRecOn with
  | nil => exact ⟨[],[],rfl,.inl rfl,by simp⟩
  | append_singleton bs b ih =>
    by_cases hb : b = newlineByte
    · subst hb
      exact ⟨bs ++ [newlineByte],[],by simp,.inr ⟨bs,rfl⟩,by simp⟩
    · obtain ⟨pre,line,rfl,hpre,hline⟩ := ih
      exact ⟨pre,line ++ [b],by simp,hpre,by simp [hline,Ne.symm hb]⟩

/-- A line that is not ended is none of the lines. -/
theorem logLines_open {line : Bytes} (hline : newlineByte ∉ line) (start : ℕ) (acc : Bytes) :
    logLines start acc line = [] := by
  induction line generalizing acc with
  | nil => rfl
  | cons b line ih =>
    have hb : b ≠ newlineByte := fun he => hline (he ▸ List.mem_cons_self)
    rw [logLines,if_neg hb,ih fun h => hline (List.mem_cons_of_mem _ h)]

/-- The first line goes on with what is there of it; the others start behind that. -/
theorem logLines_cases {start : ℕ} {acc bs : Bytes} {l : ℕ × Bytes} (h : l ∈ logLines start acc bs) :
    (l.1 = start ∧ ∃ more, l.2 = acc ++ more) ∨ start+acc.length < l.1 := by
  induction bs generalizing acc with
  | nil => cases h
  | cons b bs ih =>
    rw [logLines] at h
    split_ifs at h
    · rcases List.mem_cons.mp h with rfl | h
      · exact .inl ⟨rfl,[],by simp⟩
      · exact .inr (logLines_start h).1
    · rcases ih h with ⟨hstart,more,hmore⟩ | hbehind
      · exact .inl ⟨hstart,b::more,by simpa using hmore⟩
      · refine .inr ?_
        rw [List.length_append] at hbehind
        omega

theorem logLines_split {pre : Bytes} (h : EndsLine pre) (start : ℕ) (rest : Bytes) :
    logLines start [] (pre ++ rest) = logLines start [] pre ++ logLines (start+pre.length) [] rest := by
  rcases h with rfl | ⟨a,rfl⟩
  · rfl
  · rw [logLines_closed]
    rfl

theorem logLines_accumulate {line : Bytes} (hline : newlineByte ∉ line) (start : ℕ) (acc rest : Bytes) :
    logLines start acc (line ++ rest) = logLines start (acc ++ line) rest := by
  induction line generalizing acc with
  | nil => simp
  | cons b line ih =>
    have hb : b ≠ newlineByte := fun he => hline (he ▸ List.mem_cons_self)
    rw [List.cons_append,logLines,if_neg hb,ih fun h => hline (List.mem_cons_of_mem _ h)]
    simp

/-- A range that was skipped. -/
def TailLedger.skip (ledger : TailLedger) (range : ℕ × ℕ) : TailLedger :=
  ledger.add ⟨[],[],[range]⟩

theorem TailLedger.accounts_skip {ledger : TailLedger} {range : ℕ × ℕ} {l : ℕ × Bytes}
    (h : range.1 ≤ l.1 ∧ l.1 < range.2) : (ledger.skip range).Accounts maxLineLen l :=
  .inr (.inr (.inr ⟨range,by simp [TailLedger.skip,TailLedger.add],h⟩))

theorem TailLedger.Accounts.skip {ledger : TailLedger} {l : ℕ × Bytes}
    (h : ledger.Accounts maxLineLen l) (range : ℕ × ℕ) : (ledger.skip range).Accounts maxLineLen l :=
  h.mono (List.subset_append_left _ _) (List.subset_append_left _ _) (List.subset_append_left _ _)

/-- Two cuts of one text at line ends: the later one keeps the earlier lines. -/
theorem append_lines {pre line pre' line' : Bytes} (h : pre' ++ line' = pre ++ line)
    (hpre : EndsLine pre) (hline' : newlineByte ∉ line') : ∃ a, pre' = pre ++ a ∧ line = a ++ line' := by
  rcases List.append_eq_append_iff.mp h.symm with ⟨a,hpre',hline⟩ | ⟨a,hpre',hline⟩
  · exact ⟨a,hpre',hline⟩
  · cases a using List.reverseRecOn with
    | nil => exact ⟨[],by simpa using hpre'.symm,by simpa using hline.symm⟩
    | append_singleton a b =>
      rcases hpre with rfl | ⟨q,rfl⟩
      · simp at hpre'
      · rw [← List.append_assoc] at hpre'
        obtain rfl : newlineByte = b := by
          simpa using congrArg List.getLast? hpre'
        rw [hline] at hline'
        simp at hline'

/-- Whatever is skipped behind a position, the lines that start there are in the skip. -/
theorem SettledAt.jump {ledger : TailLedger} {offset offset' stop : ℕ} {skip : Bool}
    (h : SettledAt maxLineLen base bytes ledger offset skip) (hlt : offset < stop)
    (hle : offset ≤ offset') (hstop : offset' ≤ stop) (hwithin : offset' ≤ bytes.length) :
    SettledAt maxLineLen base bytes (ledger.skip (offset,stop)) offset' true := by
  obtain ⟨pre,line,rest,h⟩ := h
  have hbehind := h.behind
  have hcursor := h.stands.cursor
  have hrest : rest = bytes.drop offset := by
    rw [h.stands.rest,List.drop_drop]
    congr 1
    omega
  obtain ⟨pre',line',hcut,hpre',hline'⟩ := exists_lastLine ((bytes.drop base).take (offset'-base))
  have hlength : pre'.length+line'.length = offset'-base := by
    have hl := congrArg List.length hcut
    rw [List.length_take,List.length_drop,List.length_append] at hl
    omega
  -- The text in front of the new position goes on behind the old one.
  have htext : pre' ++ line' = pre ++ (line ++ rest.take (offset'-offset)) := by
    rw [← hcut,h.stands.split,List.take_append,List.take_of_length_le (by omega),List.take_append,
      List.take_of_length_le (by omega)]
    congr 3
    omega
  have hstands : Stands (bytes.drop base) pre' line' (bytes.drop offset') (offset'-base) := by
    refine ⟨hpre',hline',?_,hlength.symm⟩
    have hdrop : bytes.drop offset' = (bytes.drop base).drop (offset'-base) := by
      rw [List.drop_drop]
      congr 1
      omega
    rw [← List.append_assoc,← hcut,hdrop,List.take_append_drop]
  have hinside : ∀ more, (ledger.skip (offset,stop)).Accounts maxLineLen (base+pre.length,line ++ more) := by
    intro more
    rcases h.mode with hnil | ⟨-,hdecided⟩
    · refine TailLedger.accounts_skip ?_
      rw [hnil,List.length_nil] at hcursor
      dsimp only
      omega
    · exact (hdecided more).skip _
  refine ⟨pre',line',bytes.drop offset',hstands,hbehind.trans hle,hwithin,fun l hl => ?_,?_⟩
  · have hfront := (logLines_start hl).2
    rw [List.length_nil] at hfront
    have hall : l ∈ logLines base [] (pre ++ (line ++ rest.take (offset'-offset))) := by
      rw [← htext,logLines_split hpre']
      exact List.mem_append_left _ hl
    rw [logLines_split h.stands.boundary,logLines_accumulate h.stands.oneLine] at hall
    rcases List.mem_append.mp hall with hall | hall
    · exact (h.lines l hall).skip _
    · rcases logLines_cases hall with ⟨hstart,more,hmore⟩ | hlater
      · have hl : l = (base+pre.length,line ++ more) := Prod.ext hstart hmore
        rw [hl]
        exact hinside more
      · refine TailLedger.accounts_skip ?_
        rw [List.nil_append] at hlater
        dsimp only
        omega
  · by_cases hnil : line' = []
    · exact .inl hnil
    refine .inr ⟨rfl,fun more => ?_⟩
    obtain ⟨a,rfl,hline⟩ := append_lines htext h.stands.boundary hline'
    by_cases ha : a = []
    · -- No line has ended in the skip.
      subst ha
      rw [List.nil_append] at hline
      rw [List.append_nil,← hline,List.append_assoc]
      exact hinside _
    · have hlong : line.length < a.length := by
        by_contra hshort
        have hnewline : newlineByte ∈ a := by
          rcases hpre' with hempty | ⟨q,hq⟩
          · exact absurd (List.append_eq_nil_iff.mp hempty).2 ha
          · have hlast := congrArg List.getLast? hq
            rw [List.getLast?_append_of_ne_nil _ ha,List.getLast?_concat] at hlast
            exact List.mem_of_getLast? hlast
        have hstart := List.prefix_of_prefix_length_le (List.prefix_append a line')
          (hline ▸ List.prefix_append line _) (not_lt.mp hshort)
        exact h.stands.oneLine (hstart.subset hnewline)
      have hsome := List.length_pos_iff.mpr hnil
      refine TailLedger.accounts_skip ?_
      rw [List.length_append] at hlength ⊢
      dsimp only
      omega

/-- The bytes that a read has skipped so far. -/
def TailScan.skippedBytes (t : TailScan) : ℕ := t.gaps.backlogBytesSkipped+t.gaps.sparseBytesSkipped

theorem consumeSegment_skipped (segment : Bytes) (t : TailScan) :
    (consumeSegment maxLineLen segment t).skippedBytes = t.skippedBytes := by
  rw [consumeSegment]
  split_ifs
  · rfl
  · rfl
  · dsimp only
    split_ifs <;> rfl

/-- The lines of a chunk are not counted as skipped. -/
theorem scanChunk_skipped (caps : TailCaps) (calls : ReadCalls) (fuel : ℕ) (chunk : Bytes)
    (t : TailScan) : (scanChunk caps calls fuel chunk t).2.skippedBytes = t.skippedBytes := by
  induction fuel generalizing chunk t with
  | zero => rfl
  | succ fuel ih =>
    rw [scanChunk]
    split_ifs
    · rfl
    · rfl
    dsimp only
    split
    · split_ifs <;> exact consumeSegment_skipped _ _
    · exact (ih _ _).trans (consumeSegment_skipped _ _)

/-- What a scan leaves: it has skipped so many bytes, and its resume point is settled. -/
def Leaves (maxLineLen base : ℕ) (bytes : Bytes) (past : TailLedger) (skipped : ℕ) (t : TailScan) :
    Prop :=
  t.skippedBytes = skipped ∧ ∃ dropped, t.gaps.binaryLinesDropped = min dropped.length u32Max ∧
    SettledAt maxLineLen base bytes (t.ledger past dropped) (t.resumeOffset bytes.length)
      (t.skipUntilNewline || t.truncatedCurrent)

theorem ScanAccounts.leaves {t : TailScan} {rest : Bytes}
    (h : ScanAccounts maxLineLen base bytes past t rest) (hcursor : t.cursor ≤ bytes.length) :
    Leaves maxLineLen base bytes past t.skippedBytes t := by
  obtain ⟨pre,line,dropped,h⟩ := h
  have hbehind := h.behind
  have hstands := h.stands.cursor
  refine ⟨rfl,dropped,h.binary,?_⟩
  rcases h.mode with hholds | hskips
  · have hoffset : t.resumeOffset bytes.length = base+pre.length := by
      rw [TailScan.resumeOffset,hholds.skip,hholds.whole,if_neg (by simp)]
      split_ifs with hnil
      · have hempty : line = [] := hholds.held.symm.trans hnil
        rw [hempty,List.length_nil] at hstands
        omega
      · have hcommitted := hholds.committed
        omega
    rw [hoffset,hholds.skip,hholds.whole]
    refine ⟨pre,[],line ++ rest,⟨h.stands.boundary,by simp,h.stands.split,?_⟩,Nat.le_add_right _ _,
      by omega,h.lines,.inl rfl⟩
    rw [List.length_nil]
    omega
  · have hoffset : t.resumeOffset bytes.length = t.cursor := by
      rw [TailScan.resumeOffset,if_pos (.inl hskips.skip),max_eq_right hskips.committed,
        min_eq_left hcursor]
    rw [hoffset,hskips.skip]
    refine ⟨pre,line,rest,h.stands,hbehind,hcursor,h.lines,?_⟩
    rcases hskips.decided with hdecided | ⟨hnil,-⟩
    · exact .inr ⟨rfl,hdecided⟩
    · exact .inl hnil

/-- A scan that has not looked at any byte yet. -/
structure AtStart (offset : ℕ) (skip : Bool) (t : TailScan) : Prop where
  cursor : t.cursor = offset
  line : t.line = []
  lines : t.lines = []
  committed : t.committed = offset
  flag : t.skipUntilNewline = skip
  whole : t.truncatedCurrent = false
  binary : t.gaps.binaryLinesDropped = 0
  lineStart : skip = false → t.lineStart = offset

theorem AtStart.ledger {offset : ℕ} {skip : Bool} {t : TailScan} (h : AtStart offset skip t) :
    t.ledger past [] = past := by
  rw [TailScan.ledger,h.lines]
  simp [TailLedger.add]

theorem AtStart.leaves {offset : ℕ} {skip : Bool} {t : TailScan} (h : AtStart offset skip t)
    (hat : SettledAt maxLineLen base bytes past offset skip) :
    Leaves maxLineLen base bytes past t.skippedBytes t := by
  refine ⟨rfl,[],h.binary,?_⟩
  obtain ⟨pre,line,rest,hsettled⟩ := id hat
  have hoffset : t.resumeOffset bytes.length = offset := by
    have hwithin := hsettled.within
    rw [TailScan.resumeOffset,h.committed,h.cursor,h.line,if_pos rfl]
    split_ifs
    · rw [max_self,min_eq_left hwithin]
    · exact min_eq_left hwithin
  rw [h.ledger,hoffset,h.flag,h.whole,Bool.or_false]
  exact hat

/-- A line is skipped from inside, or it is an empty one. -/
def StartsInside (base : ℕ) (bytes : Bytes) (offset : ℕ) : Prop :=
  (base < offset ∧ bytes[offset-1]? ≠ some newlineByte) ∨ bytes[offset]? = some newlineByte

theorem AtStart.accounts {offset : ℕ} {skip : Bool} {t : TailScan} (h : AtStart offset skip t)
    (hat : SettledAt maxLineLen base bytes past offset skip)
    (hinside : skip = true → StartsInside base bytes offset) :
    ScanAccounts maxLineLen base bytes past t (bytes.drop t.cursor) := by
  obtain ⟨pre,line,rest,hat⟩ := hat
  have hbehind := hat.behind
  have hcursor := hat.stands.cursor
  have hrest : rest = bytes.drop offset := by
    rw [hat.stands.rest,List.drop_drop]
    congr 1
    omega
  rw [h.cursor,← hrest]
  refine ⟨pre,line,[],h.cursor ▸ hat.stands,h.cursor ▸ hbehind,h.binary,?_,?_⟩
  · rw [h.ledger]
    exact hat.lines
  rw [h.ledger]
  cases skip with
  | false =>
    have hnil : line = [] := hat.mode.resolve_right (by simp)
    rw [hnil,List.length_nil] at hcursor
    exact .inl ⟨h.flag,h.whole,h.line.trans hnil.symm,by simp [hnil],by simp [hnil],
      by rw [h.committed]; omega,by rw [h.lineStart rfl]; omega⟩
  | true =>
    refine .inr ⟨h.flag,h.line,by rw [h.committed,h.cursor],?_⟩
    rcases hat.mode with hnil | ⟨-,hdecided⟩
    · rcases hinside rfl with ⟨hlt,hbefore⟩ | hnext
      · -- Behind a line end there would be a line break.
        rw [hnil,List.length_nil] at hcursor
        rcases hat.stands.boundary with rfl | ⟨a,rfl⟩
        · rw [List.length_nil] at hcursor
          omega
        · have hget : (bytes.drop base)[a.length]? = some newlineByte := by
            rw [hat.stands.split]
            simp
          rw [List.getElem?_drop] at hget
          rw [List.length_append,List.length_singleton] at hcursor
          exact absurd (by rw [← hget]; congr 1; omega) hbefore
      · refine .inr ⟨hnil,?_⟩
        rw [hrest,List.head?_drop]
        exact hnext
    · exact .inl hdecided

theorem length_slice {file : Bytes} {cursor n : ℕ} (h : cursor+n ≤ file.length) :
    (slice file cursor n).length = n := by
  rw [slice,List.length_take,List.length_drop]
  omega

/-- How many bytes a call returns at the cursor. -/
def callLen (calls : ReadCalls) (file : Bytes) (t : TailScan) : ℕ :=
  min (min (min readBufSize t.remaining) (file.length-t.cursor)) (calls.readLen t.reads)

/-- No data is reported at the cursor, and the next call returns zeroes. -/
def ZeroesNext (calls : ReadCalls) (file : Bytes) (t : TailScan) : Prop :=
  t.verifySparseTail = true ∧ calls.inTime (t.looks+1) = true ∧
    (slice file t.cursor (callLen calls file t)).all (· == 0) = true

/-- The chunk at hand, and then the next ones. -/
def scanOn (caps : TailCaps) (calls : ReadCalls) (file : Bytes) (fuel : ℕ) (chunk : Bytes)
    (t : TailScan) : TailScan :=
  match scanChunk caps calls chunk.length chunk t with
  | ([],t) => readChunks caps calls file fuel t
  | (_,t) => t.exhausted

/-- What one call comes to: nothing, zeroes that are skipped, or a chunk of lines. -/
theorem readChunks_step (caps : TailCaps) (calls : ReadCalls) (file : Bytes) (fuel : ℕ)
    (t : TailScan) :
    (readChunks caps calls file (fuel+1) t = t ∨ readChunks caps calls file (fuel+1) t = t.looked) ∨
    0 < callLen calls file t ∧
      (ZeroesNext calls file t ∧ readChunks caps calls file (fuel+1) t = readChunks caps calls file fuel
          ((t.looked.took (callLen calls file t)).looked.skipZeroes (callLen calls file t)) ∨
        ¬ZeroesNext calls file t ∧ ∃ u : TailScan, u.core = t.core ∧ u.skippedBytes = t.skippedBytes ∧
          (u.verifySparseTail = false ∨
            t.verifySparseTail = true ∧ calls.inTime (t.looks+1) = false ∧ u.looks = t.looks+2) ∧
          readChunks caps calls file (fuel+1) t =
            scanOn caps calls file fuel (slice file t.cursor (callLen calls file t)) u) := by
  rw [readChunks]
  by_cases hstop : t.remaining = 0 ∨ caps.maxLines ≤ t.lines.length
  · rw [if_pos hstop]
    exact .inl (.inl rfl)
  rw [if_neg hstop]
  by_cases htime : calls.inTime t.looks = false ∨ file.length ≤ t.cursor
  · rw [if_pos htime]
    exact .inl (.inr rfl)
  rw [if_neg htime]
  dsimp only
  have hn : min (min (min readBufSize t.looked.remaining) (file.length-t.looked.cursor))
    (calls.readLen t.looked.reads) = callLen calls file t := rfl
  rw [hn]
  by_cases hnone : callLen calls file t = 0
  · rw [if_pos hnone]
    exact .inl (.inr rfl)
  rw [if_neg hnone]
  refine .inr ⟨Nat.pos_of_ne_zero hnone,?_⟩
  have hplain : (t.looked.took (callLen calls file t)).verifySparseTail = t.verifySparseTail := rfl
  have hlooks : (t.looked.took (callLen calls file t)).looks = t.looks+1 := rfl
  have hcursor : t.looked.cursor = t.cursor := rfl
  simp only [hplain,hlooks,hcursor]
  cases hverify : t.verifySparseTail with
  | false =>
    refine .inr ⟨fun h => by simp [h.1] at hverify,{ t.looked.took (callLen calls file t) with
      verifySparseTail := (t.looked.took (callLen calls file t)).verifySparseTail && !false },rfl,rfl,
      .inl (by simp [hplain,hverify]),?_⟩
    simp only [Bool.false_and,Bool.false_eq_true,false_and,if_false]
    rfl
  | true =>
    cases htime : calls.inTime (t.looks+1) with
    | false =>
      refine .inr ⟨fun h => by simp [h.2.1] at htime,
        { (t.looked.took (callLen calls file t)).looked with verifySparseTail :=
          (t.looked.took (callLen calls file t)).looked.verifySparseTail && !false },rfl,rfl,
        .inr ⟨rfl,rfl,rfl⟩,?_⟩
      simp only [Bool.and_false,Bool.false_eq_true,false_and,if_false,if_true]
      rfl
    | true =>
      by_cases hzero : (slice file t.cursor (callLen calls file t)).all (· == 0) = true
      · exact .inl ⟨⟨hverify,htime,hzero⟩,by simp [hzero]⟩
      · refine .inr ⟨fun h => hzero h.2.2,
          { (t.looked.took (callLen calls file t)).looked with verifySparseTail :=
            (t.looked.took (callLen calls file t)).looked.verifySparseTail && !true },rfl,rfl,
          .inl (by simp),?_⟩
        rw [if_neg fun h => hzero h.2,if_pos rfl]
        rfl

/-- One chunk that is not skipped. -/
theorem ScanAccounts.leaves_chunk {caps : TailCaps} {calls : ReadCalls} {fuel n : ℕ}
    {t : TailScan} (h : ScanAccounts caps.maxLineLen base bytes past t (bytes.drop t.cursor))
    (hn : t.cursor+n ≤ bytes.length) (hverify : t.verifySparseTail = false)
    (hrest : ∀ u : TailScan, ScanAccounts caps.maxLineLen base bytes past u (bytes.drop u.cursor) →
      u.verifySparseTail = false → u.cursor ≤ bytes.length →
      Leaves caps.maxLineLen base bytes past u.skippedBytes (readChunks caps calls bytes fuel u)) :
    Leaves caps.maxLineLen base bytes past t.skippedBytes
      (scanOn caps calls bytes fuel (slice bytes t.cursor n) t) := by
  obtain ⟨_,_,_,hstart⟩ := id h
  have hbase := hstart.behind
  rw [rest_slice (List.prefix_refl bytes) hn] at h
  have hscanned := h.chunk calls (slice bytes t.cursor n).length
  have hskipped := scanChunk_skipped caps calls (slice bytes t.cursor n).length
    (slice bytes t.cursor n) t
  have hflag := (scanChunk_frame caps calls (slice bytes t.cursor n).length
    (slice bytes t.cursor n) t).2
  rw [scanOn]
  generalize scanChunk caps calls (slice bytes t.cursor n).length (slice bytes t.cursor n) t = out
    at *
  obtain ⟨left,v⟩ := out
  dsimp only at hscanned hskipped hflag ⊢
  have hv : v.cursor ≤ bytes.length := by
    obtain ⟨_,_,_,hacc⟩ := hscanned
    have hend := hacc.stands.length
    have hbehind := hacc.behind
    simp only [List.length_append,List.length_drop] at hend
    omega
  cases left with
  | nil =>
    rw [List.nil_append] at hscanned
    rw [← hskipped]
    exact hrest v (hscanned.rest ▸ hscanned) (hflag.trans hverify) hv
  | cons b left =>
    rw [← hskipped]
    exact (hscanned.congr rfl : ScanAccounts _ _ _ _ v.exhausted _).leaves hv

theorem callLen_le {calls : ReadCalls} {t : TailScan} (hcursor : t.cursor ≤ bytes.length) :
    t.cursor+callLen calls bytes t ≤ bytes.length := by
  rw [callLen]
  omega

/-- Chunk after chunk, once no more holes are looked for. -/
theorem ScanAccounts.chunks {caps : TailCaps} (calls : ReadCalls) (fuel : ℕ) {t : TailScan}
    (h : ScanAccounts caps.maxLineLen base bytes past t (bytes.drop t.cursor))
    (hverify : t.verifySparseTail = false) (hcursor : t.cursor ≤ bytes.length) :
    Leaves caps.maxLineLen base bytes past t.skippedBytes (readChunks caps calls bytes fuel t) := by
  induction fuel generalizing t with
  | zero => exact h.leaves hcursor
  | succ fuel ih =>
    rcases readChunks_step caps calls bytes fuel t with (hrun | hrun) |
      ⟨-,⟨hzero,-⟩ | ⟨-,u,hcore,hskipped,hflag,hrun⟩⟩
    · rw [hrun]
      exact h.leaves hcursor
    · rw [hrun]
      exact (h.congr rfl : ScanAccounts _ _ _ _ t.looked _).leaves hcursor
    · exact absurd hzero.1 (by simp [hverify])
    · have hu : u.cursor = t.cursor := congrArg Prod.fst hcore
      have hplain : u.verifySparseTail = false := hflag.resolve_right (by simp [hverify])
      rw [hrun,← hskipped,← hu]
      exact (hu ▸ h.congr hcore).leaves_chunk (hu ▸ callLen_le hcursor) hplain
        fun v hv hflag hle => ih hv hflag hle

/-- The clock never goes back. -/
def ReadCalls.ClockAdvances (calls : ReadCalls) : Prop :=
  ∀ m n, m ≤ n → calls.inTime n = true → calls.inTime m = true

theorem startsInside_zeroes {offset n : ℕ} (hbase : base ≤ offset) (hn : 0 < n)
    (hzero : (slice bytes offset n).all (· == 0) = true) : StartsInside base bytes (offset+n) := by
  refine .inl ⟨by omega,fun hnewline => ?_⟩
  have hmem : newlineByte ∈ slice bytes offset n := by
    refine List.mem_of_getElem? (i := n-1) ?_
    rw [slice,List.getElem?_take_of_lt (by omega),List.getElem?_drop,← hnewline]
    congr 1
    omega
  have heq := List.all_eq_true.mp hzero newlineByte hmem
  exact absurd heq (by decide)

theorem AtStart.congr {offset : ℕ} {skip : Bool} {t u : TailScan} (h : AtStart offset skip t)
    (hcore : u.core = t.core) : AtStart offset skip u := by
  simp only [TailScan.core,Prod.mk.injEq] at hcore
  obtain ⟨hcursor,hline,hstart,hcommitted,hlines,hskip,hcut,-,hbinary⟩ := hcore
  exact ⟨hcursor.trans h.cursor,hline.trans h.line,hlines.trans h.lines,hcommitted.trans h.committed,
    hskip.trans h.flag,hcut.trans h.whole,hbinary.trans h.binary,fun hf => hstart.trans (h.lineStart hf)⟩

/-- Out of time no byte of a chunk is looked at. -/
theorem scanOn_late (caps : TailCaps) {calls : ReadCalls} (bytes : Bytes) (fuel : ℕ) {chunk : Bytes}
    {t : TailScan} (hchunk : chunk ≠ []) (htime : calls.inTime t.looks = false) :
    scanOn caps calls bytes fuel chunk t = t.exhausted ∨
      scanOn caps calls bytes fuel chunk t = t.looked.exhausted := by
  cases chunk with
  | nil => exact absurd rfl hchunk
  | cons b chunk =>
    rw [scanOn,List.length_cons,scanChunk]
    by_cases hlines : caps.maxLines ≤ t.lines.length
    · rw [if_pos (.inr hlines)]
      exact .inl rfl
    · rw [if_neg (by simp [hlines]),if_pos htime]
      exact .inr rfl

theorem Leaves.skip {start offset skipped : ℕ} {t : TailScan} (hoffset : start+skipped = offset)
    (h : Leaves maxLineLen base bytes (past.skip (start,offset)) skipped t) :
    Leaves maxLineLen base bytes (past.skip (start,start+t.skippedBytes)) t.skippedBytes t := by
  rw [h.1,hoffset]
  exact h

theorem AtStart.leaves_skip {start offset : ℕ} {skip : Bool} {t : TailScan}
    (h : AtStart offset skip t) (hskipped : start+t.skippedBytes = offset)
    (hpos : SettledAt maxLineLen base bytes (past.skip (start,offset)) offset skip) :
    Leaves maxLineLen base bytes (past.skip (start,start+t.skippedBytes)) t.skippedBytes t := by
  rw [hskipped]
  exact h.leaves hpos

/-- A read leaves its resume point settled, with all that it skips in one range. -/
theorem SettledAt.reads {caps : TailCaps} {calls : ReadCalls} (hclock : calls.ClockAdvances)
    {start : ℕ} {skip₀ : Bool} (hat : SettledAt caps.maxLineLen base bytes past start skip₀)
    (fuel : ℕ) {t : TailScan} {offset : ℕ} {skip : Bool} (hstart : AtStart offset skip t)
    (hskipped : start+t.skippedBytes = offset) (hwithin : offset ≤ bytes.length)
    (hpos : SettledAt caps.maxLineLen base bytes (past.skip (start,offset)) offset skip)
    (hinside : skip = true → StartsInside base bytes offset ∨ ZeroesNext calls bytes t) :
    Leaves caps.maxLineLen base bytes
      (past.skip (start,start+(readChunks caps calls bytes fuel t).skippedBytes))
      (readChunks caps calls bytes fuel t).skippedBytes (readChunks caps calls bytes fuel t) := by
  induction fuel generalizing t offset skip with
  | zero => exact hstart.leaves_skip hskipped hpos
  | succ fuel ih =>
    have hbase : base ≤ offset := by
      obtain ⟨_,_,_,hsettled⟩ := hpos
      exact hsettled.behind
    have hle : offset+callLen calls bytes t ≤ bytes.length := by
      have hcall : t.cursor+callLen calls bytes t ≤ bytes.length :=
        callLen_le (hstart.cursor.trans_le hwithin)
      rwa [hstart.cursor] at hcall
    rcases readChunks_step caps calls bytes fuel t with (hrun | hrun) |
      ⟨hsome,⟨hzero,hrun⟩ | ⟨htext,u,hcore,hsame,hflag,hrun⟩⟩
    · rw [hrun]
      exact hstart.leaves_skip hskipped hpos
    · rw [hrun]
      exact (hstart.congr (rfl : t.looked.core = t.core)).leaves_skip hskipped hpos
    · -- More zeroes, that are skipped.
      rw [hrun]
      have hzeroes := hzero.2.2
      rw [hstart.cursor] at hzeroes
      have hskip : AtStart (offset+callLen calls bytes t) true
          ((t.looked.took (callLen calls bytes t)).looked.skipZeroes (callLen calls bytes t)) :=
        ⟨congrArg (· + _) hstart.cursor,hstart.line,hstart.lines,congrArg (· + _) hstart.cursor,rfl,
          hstart.whole,hstart.binary,nofun⟩
      refine ih hskip ?_ hle (hat.jump (by omega) (by omega) (le_refl _) hle)
        fun _ => .inl (startsInside_zeroes hbase hsome hzeroes)
      · change start+(t.gaps.backlogBytesSkipped+(t.gaps.sparseBytesSkipped+_)) = _
        rw [← hskipped,TailScan.skippedBytes]
        omega
    · -- The lines begin here.
      have hhere : skip = true → StartsInside base bytes offset := fun h => (hinside h).resolve_right htext
      have hustart := hstart.congr hcore
      have hcursor : u.cursor = t.cursor := hustart.cursor.trans hstart.cursor.symm
      rw [← hsame] at hskipped
      rw [hrun]
      rcases hflag with hplain | ⟨-,hlate,hlooks⟩
      · have haccounts := hustart.accounts hpos hhere
        have hnext : u.cursor+callLen calls bytes t ≤ bytes.length := by rwa [hustart.cursor]
        have hleaves := haccounts.leaves_chunk hnext hplain fun v hv hflag hle =>
          hv.chunks calls fuel hflag hle
        rw [hcursor] at hleaves
        exact hleaves.skip hskipped
      · have htime : calls.inTime u.looks = false := by
          rw [hlooks]
          by_contra hearly
          rw [Bool.not_eq_false] at hearly
          rw [hclock _ _ (Nat.le_succ _) hearly] at hlate
          cases hlate
        have hchunk : slice bytes t.cursor (callLen calls bytes t) ≠ [] := by
          rw [← List.length_pos_iff,length_slice (by rw [hstart.cursor]; exact hle)]
          exact hsome
        rcases scanOn_late caps bytes fuel hchunk htime with hrun | hrun
        · rw [hrun]
          exact (hustart.congr (rfl : u.exhausted.core = u.core)).leaves_skip hskipped hpos
        · rw [hrun]
          exact (hustart.congr (rfl : u.looked.exhausted.core = u.core)).leaves_skip hskipped hpos

/-- More is unread than the caps allow, and the tail that is kept begins behind the position. -/
def Jumps (caps : TailCaps) (size offset : ℕ) : Prop :=
  caps.maxBacklogBytes < size-offset ∧ offset < size-caps.backlogTailBytes

instance (caps : TailCaps) (size offset : ℕ) : Decidable (Jumps caps size offset) :=
  inferInstanceAs (Decidable (_ ∧ _))

def jumpTo (caps : TailCaps) (size offset : ℕ) : ℕ :=
  if Jumps caps size offset then size-caps.backlogTailBytes else offset

theorem applyBacklogGuard_eq (caps : TailCaps) (size offset : ℕ) (skip : Bool) :
    applyBacklogGuard caps size offset skip = (jumpTo caps size offset,
      skip || decide (Jumps caps size offset),jumpTo caps size offset-offset) := by
  rw [applyBacklogGuard,jumpTo]
  by_cases hjumps : Jumps caps size offset
  · rw [if_neg (by have hlt := hjumps.2; have hlag := hjumps.1; omega)]
    simp [hjumps]
  · rw [if_pos (by rw [Jumps] at hjumps; omega)]
    simp [hjumps]

theorem le_jumpTo (caps : TailCaps) (size offset : ℕ) : offset ≤ jumpTo caps size offset := by
  rw [jumpTo]
  split_ifs with hjumps
  · exact hjumps.2.le
  · exact le_refl _

/-- The file has a hole at the offset: the system reports data behind it, or none at all and the first
call returns zeroes. -/
def HoleAt (caps : TailCaps) (calls : ReadCalls) (bytes : Bytes) (offset : ℕ) : Prop :=
  (∃ found, calls.dataAt offset = some found ∧ offset < found) ∨
    calls.dataAt offset = none ∧ calls.inTime 1 = true ∧ (slice bytes offset (min (min
      (min readBufSize caps.maxBytes) (bytes.length-offset)) (calls.readLen 0))).all (· == 0) = true

/-- A line is skipped only from inside, as far as there is data where the read begins. -/
def SkipsInside (caps : TailCaps) (calls : ReadCalls) (base : ℕ) (bytes : Bytes) (offset : ℕ)
    (skip : Bool) : Prop :=
  skip = true ∨ Jumps caps bytes.length offset → jumpTo caps bytes.length offset < bytes.length →
    ¬HoleAt caps calls bytes (jumpTo caps bytes.length offset) →
    StartsInside base bytes (jumpTo caps bytes.length offset)

/-- The bytes of a hole are zeroes. -/
def ReadCalls.HolesZero (calls : ReadCalls) (bytes : Bytes) : Prop :=
  ∀ offset found, calls.dataAt offset = some found →
    (slice bytes offset (found-offset)).all (· == 0) = true

/-- What a batch adds to the ledger of a file. -/
def TailBatch.ledger (start : ℕ) (dropped : List ℕ) (batch : TailBatch) : TailLedger :=
  ⟨batch.lines,dropped,
    [(start,start+(batch.gaps.backlogBytesSkipped+batch.gaps.sparseBytesSkipped))]⟩

theorem Leaves.batch {caps : TailCaps} {calls : ReadCalls} {file : LogFile} {start : ℕ} {t : TailScan}
    (h : Leaves maxLineLen base file.bytes (past.skip (start,start+t.skippedBytes)) t.skippedBytes t) :
    ∃ offset skip dropped, (finishScan caps calls file t).nextState = file.nextState offset skip ∧
      (finishScan caps calls file t).gaps.binaryLinesDropped = min dropped.length u32Max ∧
      SettledAt maxLineLen base file.bytes
        (past.add ((finishScan caps calls file t).ledger start dropped)) offset skip := by
  obtain ⟨-,dropped,hbinary,hsettled⟩ := h
  have hledger : t.ledger (past.skip (start,start+t.skippedBytes)) dropped = past.add
      ((finishScan caps calls file t).ledger start dropped) := by
    rw [finishScan]
    split_ifs <;>
      simp [TailScan.ledger,TailLedger.skip,TailLedger.add,TailBatch.ledger,TailScan.skippedBytes,
        TailScan.exhausted]
  rw [hledger] at hsettled
  refine ⟨_,_,dropped,?_,?_,hsettled⟩
  · rw [finishScan]
    split_ifs <;> rfl
  · rw [finishScan]
    split_ifs <;> exact hbinary

theorem startScan_skipped {caps : TailCaps} {cursor rotations backlog : ℕ} {skip : Bool}
    {found : Option ℕ} : (startScan caps cursor skip found rotations backlog).skippedBytes =
      backlog+(max cursor (found.getD cursor)-cursor) := rfl

/-- At the end of the file nothing is read. -/
theorem readChunks_atEnd (caps : TailCaps) (calls : ReadCalls) (fuel : ℕ) {t : TailScan}
    (h : bytes.length ≤ t.cursor) : readChunks caps calls bytes fuel t = t ∨
      readChunks caps calls bytes fuel t = t.looked := by
  cases fuel with
  | zero => exact .inl rfl
  | succ fuel =>
    have hnone : callLen calls bytes t = 0 := by
      rw [callLen]
      omega
    rcases readChunks_step caps calls bytes fuel t with hrun | ⟨hsome,-⟩
    · exact hrun
    · omega

/-- Behind the end of the file all of the rest is skipped. -/
theorem SettledAt.leaves_atEnd {start data : ℕ} {skip₀ : Bool} {t : TailScan}
    (hat : SettledAt maxLineLen base bytes past start skip₀) (hstart : start < bytes.length)
    (hend : bytes.length ≤ data) (hat₀ : AtStart data true t) (hskipped : start+t.skippedBytes = data) :
    Leaves maxLineLen base bytes (past.skip (start,start+t.skippedBytes)) t.skippedBytes t := by
  have hoffset : t.resumeOffset bytes.length = bytes.length := by
    rw [TailScan.resumeOffset,hat₀.flag,if_pos (.inl rfl),hat₀.committed,hat₀.cursor,max_self]
    exact min_eq_right hend
  refine ⟨rfl,[],hat₀.binary,?_⟩
  rw [hat₀.ledger,hoffset,hat₀.flag,hskipped]
  exact hat.jump (by omega) hstart.le hend (le_refl _)

/-- Where a read jumps or meets a hole, nothing is left out but the range in front. -/
theorem SettledAt.begin {caps : TailCaps} {calls : ReadCalls} {start data : ℕ} {skip : Bool}
    {t : TailScan} (hclock : calls.ClockAdvances)
    (hat : SettledAt caps.maxLineLen base bytes past start skip) (hstart : start < bytes.length)
    (hle : start ≤ data) (hat₀ : AtStart data (skip || decide (start < data)) t)
    (hskipped : start+t.skippedBytes = data) (fuel : ℕ)
    (hinside : data < bytes.length → skip = true ∨ start < data →
      StartsInside base bytes data ∨ ZeroesNext calls bytes t) :
    Leaves caps.maxLineLen base bytes
      (past.skip (start,start+(readChunks caps calls bytes fuel t).skippedBytes))
      (readChunks caps calls bytes fuel t).skippedBytes (readChunks caps calls bytes fuel t) := by
  by_cases hend : data < bytes.length
  · refine hat.reads hclock fuel hat₀ hskipped hend.le ?_ fun h => hinside hend (by simpa using h)
    by_cases hlt : start < data
    · rw [decide_eq_true hlt,Bool.or_true]
      exact hat.jump hlt hlt.le (le_refl _) hend.le
    · have hsame : data = start := by omega
      rw [decide_eq_false hlt,Bool.or_false,hsame]
      exact hat.mono (List.subset_append_left _ _) (List.subset_append_left _ _)
        (List.subset_append_left _ _)
  · rw [decide_eq_true (show start < data by omega),Bool.or_true] at hat₀
    have hbehind := not_lt.mp hend
    rcases readChunks_atEnd caps calls fuel (hat₀.cursor ▸ hbehind) with hrun | hrun
    · rw [hrun]
      exact hat.leaves_atEnd hstart hbehind hat₀ hskipped
    · rw [hrun]
      exact hat.leaves_atEnd hstart hbehind (hat₀.congr rfl) hskipped

theorem startScan_atStart (caps : TailCaps) (size start rotations : ℕ) (skip : Bool)
    (found : Option ℕ) :
    AtStart (max (jumpTo caps size start) (found.getD (jumpTo caps size start)))
      (skip || decide (start < max (jumpTo caps size start) (found.getD (jumpTo caps size start))))
      (startScan caps (jumpTo caps size start) (skip || decide (Jumps caps size start)) found rotations
        (jumpTo caps size start-start)) := by
  refine ⟨rfl,rfl,rfl,rfl,?_,rfl,rfl,fun _ => rfl⟩
  rw [startScan]
  dsimp only
  rw [Bool.or_assoc]
  congr 1
  by_cases hjumps : Jumps caps size start
  · have hlt : start < jumpTo caps size start := by
      rw [jumpTo,if_pos hjumps]
      exact hjumps.2
    simp [hjumps,hlt]
  · rw [jumpTo,if_neg hjumps]
    simp [hjumps]

/-- One read, from a settled position to the next. -/
theorem SettledAt.read {caps : TailCaps} {calls : ReadCalls} {startAtBeginning : Bool}
    {file : LogFile} {state : Option TailState} {start rotations : ℕ} {skip : Bool}
    (hclock : calls.ClockAdvances) (hholes : calls.HolesZero file.bytes)
    (hinitial : initialOffset file startAtBeginning state = (start,skip,rotations))
    (hat : SettledAt caps.maxLineLen base file.bytes past start skip)
    (hinside : SkipsInside caps calls base file.bytes start skip) :
    ∃ offset skip' dropped,
      (readOpenedFile caps calls startAtBeginning file state).nextState = file.nextState offset skip' ∧
      (readOpenedFile caps calls startAtBeginning file state).gaps.binaryLinesDropped =
        min dropped.length u32Max ∧
      SettledAt caps.maxLineLen base file.bytes (past.add
        ((readOpenedFile caps calls startAtBeginning file state).ledger start dropped)) offset skip' := by
  rw [readOpenedFile,hinitial]
  dsimp only
  by_cases hend : file.bytes.length ≤ start
  · rw [if_pos hend]
    refine ⟨start,skip,[],rfl,rfl,hat.mono ?_ ?_ ?_⟩ <;> exact List.subset_append_left _ _
  rw [if_neg hend,applyBacklogGuard_eq]
  dsimp only
  have hjump := le_jumpTo caps file.bytes.length start
  have hbase : base ≤ start := by
    obtain ⟨_,_,_,hsettled⟩ := hat
    exact hsettled.behind
  set s := jumpTo caps file.bytes.length start with hs
  set found := if file.bytes.length ≤ s then none else calls.dataAt s with hfound
  have hskipped : start+(startScan caps s (skip || decide (Jumps caps file.bytes.length start)) found
      rotations (s-start)).skippedBytes = max s (found.getD s) := by
    rw [startScan_skipped]
    omega
  refine Leaves.batch (hat.begin hclock (not_le.mp hend) (hjump.trans (le_max_left _ _))
    (startScan_atStart caps _ start rotations skip found) hskipped _ fun hdata hflag => ?_)
  have hinFile : ¬file.bytes.length ≤ s := by
    have hle := le_max_left s (found.getD s)
    omega
  rw [if_neg hinFile] at hfound
  by_cases hhole : ∃ data, calls.dataAt s = some data ∧ s < data
  · obtain ⟨data,hreported,hlt⟩ := hhole
    have hzeroes := hholes s data hreported
    have hinside := startsInside_zeroes (hbase.trans hjump) (by omega) hzeroes
    rw [hfound,hreported,Option.getD_some,max_eq_right hlt.le]
    rw [Nat.add_sub_cancel' hlt.le] at hinside
    exact .inl hinside
  · have hsame : max s (found.getD s) = s := by
      rw [hfound]
      cases hreported : calls.dataAt s with
      | none => exact max_self s
      | some data => exact max_eq_left (not_lt.mp fun hlt => hhole ⟨data,hreported,hlt⟩)
    rw [hsame] at hflag ⊢
    by_cases hzeroes : HoleAt caps calls file.bytes s
    · obtain ⟨hnone,htime,hall⟩ := hzeroes.resolve_left hhole
      refine .inr ⟨?_,htime,?_⟩
      · rw [startScan,hfound,hnone]
        rfl
      · rw [callLen,startScan,hfound,hnone]
        simpa using hall
    · refine .inl (hinside (hflag.imp_right fun hlt => ?_) (not_le.mp hinFile) hzeroes)
      by_contra hstays
      rw [hs,jumpTo,if_neg hstays] at hlt
      omega

end Scan

/-- Another file at the path, or the same one cut behind the saved offset. -/
def Replaced (state : TailState) (file : LogFile) : Prop :=
  state.dev ≠ file.dev ∨ state.inode ≠ file.inode ∨ file.bytes.length < state.offset.toNat

instance (state : TailState) (file : LogFile) : Decidable (Replaced state file) :=
  inferInstanceAs (Decidable (_ ∨ _))

/-- The content has not been read before. -/
def NewContent (file : LogFile) : Option TailState → Prop
  | none => True
  | some state => Replaced state file

instance (file : LogFile) (state : Option TailState) : Decidable (NewContent file state) := by
  cases state <;> unfold NewContent <;> infer_instance

/-- Where a read is to start: a new file from its beginning, a known one from the saved offset. -/
def readStart (startAtBeginning : Bool) (file : LogFile) : Option TailState → ℕ
  | none => if startAtBeginning then 0 else file.bytes.length
  | some state => if Replaced state file then 0 else state.offset.toNat

def savedSkip : Option TailState → Bool
  | none => false
  | some state => state.skipUntilNewline

/-- A path with the content that it names, where its reading began, and the reads of it. -/
structure PathRun where
  bytes : Bytes
  state : Option TailState
  base : ℕ
  reads : List (ℕ × TailBatch)

def PathRun.start : PathRun := ⟨[],none,0,[]⟩

def PathRun.offset (run : PathRun) : ℕ := run.state.elim 0 fun state => state.offset.toNat

/-- The path as a read finds it; new content begins a new account. -/
def PathRun.found (run : PathRun) (startAtBeginning : Bool) (file : LogFile) : PathRun where
  bytes := file.bytes
  state := run.state
  base := if NewContent file run.state then readStart startAtBeginning file run.state else run.base
  reads := if NewContent file run.state then [] else run.reads

/-- The next read of the path. -/
def PathRun.read (run : PathRun) (startAtBeginning : Bool) (r : TailRead) : PathRun :=
  let batch := readOpenedFile r.caps r.calls startAtBeginning r.file run.state
  { run.found startAtBeginning r.file with
    state := if r.persisted then parseState batch.nextState.render else some batch.nextState
    reads := (run.found startAtBeginning r.file).reads ++
      [(readStart startAtBeginning r.file run.state,batch)] }

/-- A file that is not replaced has only grown; holes are zeroes and the clock does not go back. -/
structure PathRun.Allows (run : PathRun) (path : Bytes) (parserKind : ParserKind) (maxLineLen : ℕ)
    (r : TailRead) : Prop where
  path : r.file.path = path
  parserKind : r.file.parserKind = parserKind
  grows : ¬NewContent r.file run.state → run.bytes <+: r.file.bytes
  clock : r.calls.ClockAdvances
  holes : r.calls.HolesZero r.file.bytes
  lineLen : r.caps.maxLineLen = maxLineLen
  persists : r.persisted = true → PathPersists r.file.path

/-- The line that the read skips, if it skips one, has been begun before. -/
def PathRun.SkipsInside (run : PathRun) (startAtBeginning : Bool) (r : TailRead) : Prop :=
  PgKronika.SkipsInside r.caps r.calls (run.found startAtBeginning r.file).base r.file.bytes
    (readStart startAtBeginning r.file run.state) (savedSkip run.state)

/-- Every sequence of reads whose steps satisfy `C`. -/
inductive PathRuns (path : Bytes) (parserKind : ParserKind) (maxLineLen : ℕ)
    (C : PathRun → Bool → TailRead → Prop) : PathRun → Prop
  | start : PathRuns path parserKind maxLineLen C .start
  | read {run : PathRun} {startAtBeginning : Bool} {r : TailRead}
      (runs : PathRuns path parserKind maxLineLen C run)
      (allowed : run.Allows path parserKind maxLineLen r) (condition : C run startAtBeginning r) :
      PathRuns path parserKind maxLineLen C (run.read startAtBeginning r)

/-- The range that a read counts as skipped. -/
def skippedRange (read : ℕ × TailBatch) : ℕ × ℕ :=
  (read.1,read.1+(read.2.gaps.backlogBytesSkipped+read.2.gaps.sparseBytesSkipped))

/-- The complete lines in front of the position, since the reading of the file began. -/
def PathRun.linesRead (run : PathRun) : List (ℕ × Bytes) :=
  logLines run.base [] ((run.bytes.take run.offset).drop run.base)

/-- The lines with text or zeroes that no read has delivered and that start in no counted skip. -/
def PathRun.missing (maxLineLen : ℕ) (run : PathRun) : List (ℕ × Bytes) :=
  run.linesRead.filter fun l => decide (l.2 ≠ [] ∧ ∀ read ∈ run.reads,
    ⟨l.1,l.2.take maxLineLen,decide (maxLineLen < l.2.length)⟩ ∉ read.2.lines ∧
      ¬((skippedRange read).1 ≤ l.1 ∧ l.1 < (skippedRange read).2))

/-- The state belongs to the path that is read. -/
def SamePath (file : LogFile) : Option TailState → Prop
  | none => True
  | some state => state.path = file.path ∧ state.parserKind = file.parserKind

/-- New content is read from its beginning, but with the saved flag. -/
theorem initialOffset_readStart {file : LogFile} {state : Option TailState}
    (h : SamePath file state) (startAtBeginning : Bool) :
    ∃ rotations, initialOffset file startAtBeginning state =
      (readStart startAtBeginning file state,savedSkip state,rotations) ∧
      (state.isSome → NewContent file state → rotations = 1) := by
  cases state with
  | none => exact ⟨0,rfl,by simp⟩
  | some state =>
    rw [initialOffset,if_neg (by simp [h.1,h.2])]
    by_cases hreplaced : Replaced state file
    · refine ⟨1,?_,fun _ _ => rfl⟩
      rw [if_neg (by rw [Replaced] at hreplaced; grind),readStart,if_pos hreplaced]
      rfl
    · refine ⟨0,?_,fun _ hnew => absurd hnew hreplaced⟩
      rw [if_pos (by rw [Replaced] at hreplaced; grind),readStart,if_neg hreplaced]
      rfl

def PathRun.ledger (run : PathRun) (dropped : List (List ℕ)) : TailLedger :=
  ⟨run.reads.flatMap fun read => read.2.lines,dropped.flatten,run.reads.map skippedRange⟩

/-- The places of the dropped lines are as many as the counters of the reads say. -/
def CountsDropped (reads : List (ℕ × TailBatch)) (dropped : List (List ℕ)) : Prop :=
  List.Forall₂ (fun read places =>
    read.2.gaps.binaryLinesDropped = min places.length u32Max) reads dropped

/-- The content is settled at a position. -/
def PathRun.Settled (run : PathRun) (maxLineLen offset : ℕ) (skip : Bool) : Prop :=
  ∃ dropped, CountsDropped run.reads dropped ∧
    SettledAt maxLineLen run.base run.bytes (run.ledger dropped) offset skip

/-- Between two reads the saved position is settled. -/
structure PathRun.Rests (run : PathRun) (path : Bytes) (parserKind : ParserKind) (maxLineLen : ℕ)
    (file : LogFile) (offset : ℕ) (skip : Bool) : Prop where
  path : file.path = path
  parserKind : file.parserKind = parserKind
  bytes : run.bytes = file.bytes
  state : run.state = some (file.nextState offset skip)
  settled : run.Settled maxLineLen offset skip

theorem SettledAt.within {maxLineLen base : ℕ} {bytes : Bytes} {ledger : TailLedger} {offset : ℕ}
    {skip : Bool} (h : SettledAt maxLineLen base bytes ledger offset skip) : offset ≤ bytes.length := by
  obtain ⟨_,_,_,h⟩ := h
  exact h.within

theorem newContent_start (file : LogFile) : NewContent file PathRun.start.state := trivial

theorem PathRun.found_of_new {run : PathRun} {file : LogFile} (h : NewContent file run.state)
    (startAtBeginning : Bool) : run.found startAtBeginning file =
      ⟨file.bytes,run.state,readStart startAtBeginning file run.state,[]⟩ := by
  simp [PathRun.found,h]

theorem PathRun.found_of_known {run : PathRun} {file : LogFile} (h : ¬NewContent file run.state)
    (startAtBeginning : Bool) : run.found startAtBeginning file =
      ⟨file.bytes,run.state,run.base,run.reads⟩ := by
  simp [PathRun.found,h]

theorem readStart_new {file : LogFile} {state : Option TailState} (h : NewContent file state)
    (startAtBeginning : Bool) : readStart startAtBeginning file state ≤ file.bytes.length := by
  cases state with
  | none =>
    rw [readStart]
    split_ifs
    · exact Nat.zero_le _
    · exact le_refl _
  | some state =>
    have hreplaced : Replaced state file := h
    rw [readStart,if_pos hreplaced]
    exact Nat.zero_le _

/-- New content is settled where its reading is to start. -/
theorem PathRun.found_new {run : PathRun} {file : LogFile} (h : NewContent file run.state)
    (startAtBeginning : Bool) (maxLineLen : ℕ) :
    (run.found startAtBeginning file).Settled maxLineLen (readStart startAtBeginning file run.state)
      (savedSkip run.state) := by
  rw [PathRun.found_of_new h]
  exact ⟨[],.nil,settledAt_start _ (readStart_new h _) _⟩

/-- Content that has grown is settled at the saved position. -/
theorem PathRun.Rests.found {run : PathRun} {path : Bytes} {parserKind : ParserKind} {maxLineLen : ℕ}
    {file : LogFile} {offset : ℕ} {skip : Bool}
    (h : run.Rests path parserKind maxLineLen file offset skip) {file' : LogFile}
    (startAtBeginning : Bool) (hgrows : ¬NewContent file' run.state → run.bytes <+: file'.bytes) :
    (run.found startAtBeginning file').Settled maxLineLen
      (readStart startAtBeginning file' run.state) (savedSkip run.state) := by
  by_cases hnew : NewContent file' run.state
  · exact PathRun.found_new hnew _ _
  · obtain ⟨dropped,hcounts,hsettled⟩ := h.settled
    have hfits := file.offset_fits (h.bytes ▸ hsettled.within)
    have hsame : ¬Replaced (file.nextState offset skip) file' := by
      rw [h.state] at hnew
      exact hnew
    have hstart : readStart startAtBeginning file' run.state = offset := by
      rw [h.state,readStart,if_neg hsame]
      exact hfits
    have hskip : savedSkip run.state = skip := by rw [h.state]; rfl
    rw [PathRun.found_of_known hnew,hstart,hskip]
    exact ⟨dropped,hcounts,hsettled.grow (hgrows hnew)⟩

/-- One read. -/
theorem PathRun.Settled.read {run : PathRun} {path : Bytes} {parserKind : ParserKind} {maxLineLen : ℕ}
    {r : TailRead} {startAtBeginning : Bool} (hallow : run.Allows path parserKind maxLineLen r)
    (hstate : SamePath r.file run.state) (hinside : run.SkipsInside startAtBeginning r)
    (h : (run.found startAtBeginning r.file).Settled maxLineLen
      (readStart startAtBeginning r.file run.state) (savedSkip run.state)) :
    ∃ offset skip, (run.read startAtBeginning r).Rests path parserKind maxLineLen r.file offset skip := by
  obtain ⟨dropped,hcounts,hsettled⟩ := h
  obtain ⟨rotations,hinitial,-⟩ := initialOffset_readStart hstate startAtBeginning
  have hat : SettledAt r.caps.maxLineLen (run.found startAtBeginning r.file).base r.file.bytes
      ((run.found startAtBeginning r.file).ledger dropped)
      (readStart startAtBeginning r.file run.state) (savedSkip run.state) := by
    rw [hallow.lineLen]
    exact hsettled
  obtain ⟨offset,skip,places,hnext,hbinary,hafter⟩ :=
    hat.read hallow.clock hallow.holes hinitial hinside
  rw [hallow.lineLen] at hafter
  refine ⟨offset,skip,hallow.path,hallow.parserKind,rfl,?_,dropped ++ [places],?_,?_⟩
  · rw [PathRun.read,hnext]
    dsimp only
    split_ifs with hpersisted
    · exact TailState.parse_render (hallow.persists hpersisted)
    · rfl
  · exact List.rel_append hcounts (.cons hbinary .nil)
  · have hledger : (run.read startAtBeginning r).ledger (dropped ++ [places]) =
        ((run.found startAtBeginning r.file).ledger dropped).add
          ((readOpenedFile r.caps r.calls startAtBeginning r.file run.state).ledger
            (readStart startAtBeginning r.file run.state) places) := by
      simp [PathRun.ledger,PathRun.read,TailLedger.add,TailBatch.ledger,skippedRange]
    rw [hledger]
    exact hafter

/-- A run has not read anything, or rests on the content of its last read. -/
theorem PathRuns.rests {path : Bytes} {parserKind : ParserKind} {maxLineLen : ℕ} {run : PathRun}
    (h : PathRuns path parserKind maxLineLen PathRun.SkipsInside run) :
    run = .start ∨ ∃ file offset skip, run.Rests path parserKind maxLineLen file offset skip := by
  induction h with
  | start => exact .inl rfl
  | @read run startAtBeginning r _ hallow hinside ih =>
    right
    refine ⟨r.file,?_⟩
    rcases ih with rfl | ⟨file,offset,skip,hrests⟩
    · exact (PathRun.found_new (newContent_start r.file) startAtBeginning maxLineLen).read hallow
        trivial hinside
    · refine (hrests.found startAtBeginning hallow.grows).read hallow ?_ hinside
      rw [hrests.state]
      exact ⟨hrests.path.trans hallow.path.symm,hrests.parserKind.trans hallow.parserKind.symm⟩

theorem logLines_ascending (start : ℕ) (acc bs : Bytes) :
    (logLines start acc bs).Pairwise fun a b => a.1 < b.1 := by
  induction bs generalizing start acc with
  | nil => exact .nil
  | cons b bs ih =>
    rw [logLines]
    split_ifs
    · refine List.pairwise_cons.mpr ⟨fun l hl => ?_,ih _ _⟩
      have hle := (logLines_start hl).1
      dsimp only
      omega
    · exact ih _ _

/-- Where no counter is full, the counters are the number of dropped lines. -/
theorem CountsDropped.sum {reads : List (ℕ × TailBatch)} {dropped : List (List ℕ)}
    (h : CountsDropped reads dropped)
    (hroom : ∀ read ∈ reads, read.2.gaps.binaryLinesDropped ≠ u32Max) :
    dropped.flatten.length = (reads.map fun read => read.2.gaps.binaryLinesDropped).sum := by
  induction h with
  | nil => rfl
  | @cons read places reads dropped hcount _ ih =>
    have hfirst := hroom read (by simp)
    have hrest := ih fun read hread => hroom read (by simp [hread])
    rw [List.flatten_cons,List.length_append,List.map_cons,List.sum_cons,hrest,hcount]
    rw [hcount] at hfirst
    omega

/-- The lines that a settled position leaves out are dropped ones. -/
theorem PathRun.Settled.missing {run : PathRun} {maxLineLen offset : ℕ} {skip : Bool}
    (h : run.Settled maxLineLen offset skip) (hoffset : run.offset = offset) :
    ∃ dropped, CountsDropped run.reads dropped ∧
      ∀ l ∈ run.missing maxLineLen, 0 ∈ l.2 ∧ l.1 ∈ dropped.flatten := by
  obtain ⟨dropped,hcounts,pre,line,rest,hsettled⟩ := h
  refine ⟨dropped,hcounts,fun l hl => ?_⟩
  obtain ⟨hread,hleft⟩ := List.mem_filter.mp hl
  obtain ⟨hne,hleft⟩ := of_decide_eq_true hleft
  have hlines : run.linesRead = logLines run.base [] pre := by
    have hbehind := hsettled.behind
    have hcursor := hsettled.stands.cursor
    have htext : (run.bytes.take offset).drop run.base = pre ++ line := by
      rw [List.drop_take,hsettled.stands.split,← List.append_assoc,hcursor,← List.length_append,
        List.take_left]
    rw [PathRun.linesRead,hoffset,htext,logLines_split hsettled.stands.boundary,
      logLines_open hsettled.stands.oneLine,List.append_nil]
  rw [hlines] at hread
  rcases hsettled.lines l hread with hnil | hdelivered | hdropped | ⟨range,hrange,hin⟩
  · exact absurd hnil hne
  · obtain ⟨read,hmem,hline⟩ := List.mem_flatMap.mp hdelivered
    exact absurd hline (hleft read hmem).1
  · exact hdropped
  · obtain ⟨read,hmem,rfl⟩ := List.mem_map.mp hrange
    exact absurd hin (hleft read hmem).2

/-- Where every read that skips a line has begun it before, the only lines with content that are
neither delivered nor in a counted skip are binary ones, and no more than are counted. New content is
read from its beginning. -/
theorem tail_rotation_accounts {path : Bytes} {parserKind : ParserKind} {maxLineLen : ℕ}
    {run : PathRun} (h : PathRuns path parserKind maxLineLen PathRun.SkipsInside run) :
    (∀ l ∈ run.missing maxLineLen, 0 ∈ l.2) ∧
    ((∀ read ∈ run.reads, read.2.gaps.binaryLinesDropped ≠ u32Max) →
      (run.missing maxLineLen).length ≤
        (run.reads.map fun read => read.2.gaps.binaryLinesDropped).sum) ∧
    ∀ (startAtBeginning : Bool) (r : TailRead), run.Allows path parserKind maxLineLen r →
      run.state.isSome → NewContent r.file run.state →
      initialOffset r.file startAtBeginning run.state = (0,savedSkip run.state,1) ∧
      (run.read startAtBeginning r).base = 0 := by
  rcases h.rests with rfl | ⟨file,offset,skip,hrests⟩
  · exact ⟨by simp [PathRun.missing,PathRun.linesRead,PathRun.start,logLines],
      by simp [PathRun.missing,PathRun.linesRead,PathRun.start,logLines],
      fun _ _ _ hsome => (by cases hsome)⟩
  · have hoffset : run.offset = offset := by
      obtain ⟨_,_,hsettled⟩ := hrests.settled
      rw [PathRun.offset,hrests.state]
      exact file.offset_fits (hrests.bytes ▸ hsettled.within)
    obtain ⟨dropped,hcounts,hmissing⟩ := hrests.settled.missing hoffset
    refine ⟨fun l hl => (hmissing l hl).1,fun hroom => ?_,fun startAtBeginning r hallow hsome hnew => ?_⟩
    · rw [← hcounts.sum hroom,← List.length_map (f := Prod.fst)]
      refine List.Nodup.length_le_of_subset ?_ ?_
      · exact ((logLines_ascending _ _ _).filter _).map _ fun _ _ hlt => hlt.ne
      · intro _ hplace
        obtain ⟨l,hl,rfl⟩ := List.mem_map.mp hplace
        exact (hmissing l hl).2
    · have hsame : SamePath r.file run.state := by
        rw [hrests.state]
        exact ⟨hrests.path.trans hallow.path.symm,hrests.parserKind.trans hallow.parserKind.symm⟩
      obtain ⟨rotations,hinitial,hrotated⟩ := initialOffset_readStart hsame startAtBeginning
      have hzero : readStart startAtBeginning r.file run.state = 0 := by
        rw [hrests.state] at hnew ⊢
        exact if_pos hnew
      rw [hinitial,hrotated hsome hnew,hzero,PathRun.read,PathRun.found_of_new hnew]
      exact ⟨rfl,hzero⟩

/-- Another file at the path of the small log files. -/
def rotatedFile (bytes : Bytes) (fits : bytes.length ≤ u64Max) : LogFile :=
  { sampleFile bytes fits with inode := 3 }

theorem sampleRead_allowed {run : PathRun} {file : LogFile} (hpath : file.path = [112])
    (hkind : file.parserKind = .stderr) (hnew : NewContent file run.state) (n : ℕ) :
    run.Allows [112] .stderr 2 (sampleRead file n false) where
  path := hpath
  parserKind := hkind
  grows := fun h => absurd hnew h
  clock := fun _ _ _ _ => rfl
  holes := fun offset found hfound => by
    obtain rfl : offset = found := Option.some.inj hfound
    simp [slice]
  lineLen := rfl
  persists := nofun

/-- A line, and then another file with two of them. -/
def rotatedRun : PathRun :=
  (PathRun.start.read true (sampleRead (sampleFile [97,10] (by decide)) 8 false)).read true
    (sampleRead (rotatedFile [98,10,99,10] (by decide)) 8 false)

theorem tail_rotation_sample : (∀ l ∈ rotatedRun.missing 2, 0 ∈ l.2) ∧
    ((∀ read ∈ rotatedRun.reads, read.2.gaps.binaryLinesDropped ≠ u32Max) →
      (rotatedRun.missing 2).length ≤
        (rotatedRun.reads.map fun read => read.2.gaps.binaryLinesDropped).sum) := by
  have hruns : PathRuns [112] .stderr 2 PathRun.SkipsInside rotatedRun := by
    refine .read (.read .start (sampleRead_allowed rfl rfl (newContent_start _) 8) ?_)
      (sampleRead_allowed rfl rfl (by decide) 8) ?_
    · exact fun h => absurd h (by decide)
    · exact fun h => absurd h (by decide)
  exact ⟨(tail_rotation_accounts hruns).1,(tail_rotation_accounts hruns).2.1⟩

/-- A line that is cut, and then another file: its first line is skipped. -/
def skippedRun : PathRun :=
  (PathRun.start.read true (sampleRead (sampleFile [97,97,97] (by decide)) 8 false)).read true
    (sampleRead (rotatedFile [98,10,99,10] (by decide)) 8 false)

/-- A read that jumps to the start of a line. -/
def jumpedRun : PathRun :=
  PathRun.start.read true { sampleRead (sampleFile [97,10,98,10,99,10,100,10] (by decide)) 8 false with
    caps := ⟨4,16,2,3,4⟩ }

/-- The first line of the new file, and the line that a jump leads to, are lost without a count. -/
theorem skipped_first_line :
    PathRuns [112] .stderr 2 (fun _ _ _ => True) skippedRun ∧
      skippedRun.linesRead = [(0,[98]),(2,[99])] ∧ skippedRun.missing 2 = [(0,[98])] ∧
    PathRuns [112] .stderr 2 (fun _ _ _ => True) jumpedRun ∧
      jumpedRun.linesRead = [(0,[97]),(2,[98]),(4,[99]),(6,[100])] ∧
      jumpedRun.missing 2 = [(4,[99])] := by
  refine ⟨?_,by decide,by decide,?_,by decide,by decide⟩
  · exact .read (.read .start (sampleRead_allowed rfl rfl (newContent_start _) 8) trivial)
      (sampleRead_allowed rfl rfl (by decide) 8) trivial
  · have hallowed : PathRun.start.Allows [112] .stderr 2
        (sampleRead (sampleFile [97,10,98,10,99,10,100,10] (by decide)) 8 false) :=
      sampleRead_allowed rfl rfl (newContent_start _) 8
    exact .read .start ⟨rfl,rfl,hallowed.grows,hallowed.clock,hallowed.holes,rfl,nofun⟩ trivial

end PgKronika
