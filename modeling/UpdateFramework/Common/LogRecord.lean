import UpdateFramework.Common.Logger
import UpdateFramework.Libc.Decimal

/-!
# Common — the records of the log

A message becomes a record of the log file: `log_msg` puts the time, the level, the thread's tag and
the client before it, and `write_line_unlocked` a newline after it (`logRecord`).  The record is one
line that begins with the time and the level exactly if what `message` holds of the text has no
newline (`oneLine_logRecord_iff`): nothing else brings one in, and nothing is cut off.
-/

namespace UpdateFramework

open Libc

/-! ### Texts -/

/-- A C string in a buffer of `cap` bytes that has no newline. -/
structure Inline (cap : ℕ) (s : Bytes) : Prop where
  nul : 0 ∉ s
  newline : 10 ∉ s
  fits : s.length < cap

/-- What is printed into a buffer stays free of newlines. -/
theorem Inline.snprintf {cap : ℕ} {s : Bytes} (hcap : 0 < cap) (h0 : 0 ∉ s) (h10 : 10 ∉ s) :
    Inline cap (snprintf cap s) where
  nul := fun h => h0 (List.mem_of_mem_take h)
  newline := fun h => h10 (List.mem_of_mem_take h)
  fits := Nat.lt_of_le_of_lt (List.length_take_le ..) (Nat.pred_lt_of_lt hcap)

/-- A number as `%0*d` prints it. -/
def zeroPadded (width n : ℕ) : Bytes :=
  List.replicate (width - (decimal n).length) 48 ++ decimal n

theorem not_mem_decimal (n : ℕ) {b : UInt8} (hb : isdigit b = false) : b ∉ decimal n :=
  (decimal_numeral n).not_mem hb

theorem not_mem_zeroPadded (width n : ℕ) {b : UInt8} (hb : isdigit b = false) :
    b ∉ zeroPadded width n := by
  intro h
  rcases List.mem_append.mp h with h | h
  · rw [List.eq_of_mem_replicate h] at hb
    cases hb
  · exact not_mem_decimal n hb h

/-- `ts` and `tm` in `log_msg`. -/
structure LogTime where
  year : ℕ
  month : ℕ
  day : ℕ
  hour : ℕ
  minute : ℕ
  second : ℕ
  millisecond : ℕ

/-- `stamp` -/
def logStamp (t : LogTime) : Bytes :=
  snprintf 64 (zeroPadded 4 t.year ++ ascii "-" ++ zeroPadded 2 t.month ++ ascii "-" ++
    zeroPadded 2 t.day ++ ascii " " ++ zeroPadded 2 t.hour ++ ascii ":" ++ zeroPadded 2 t.minute ++
    ascii ":" ++ zeroPadded 2 t.second ++ ascii "." ++ zeroPadded 3 t.millisecond)

theorem inline_logStamp (t : LogTime) : Inline 64 (logStamp t) := by
  have hpunct : ∀ b : UInt8, b = 0 ∨ b = 10 →
      b ∉ ascii "-" ∧ b ∉ ascii " " ∧ b ∉ ascii ":" ∧ b ∉ ascii "." := by
    rintro b (rfl | rfl)
    · decide
    · decide
  have hplain : ∀ b : UInt8, b = 0 ∨ b = 10 → isdigit b = false := by
    rintro b (rfl | rfl)
    · rfl
    · rfl
  refine .snprintf (by decide) ?_ ?_
  · simp [hpunct 0 (.inl rfl), not_mem_zeroPadded _ _ (hplain 0 (.inl rfl))]
  · simp [hpunct 10 (.inr rfl), not_mem_zeroPadded _ _ (hplain 10 (.inr rfl))]

/-- `thread_tag` of `worker_thread` -/
def workerTag (workerId : ℕ) : Bytes := snprintf 32 (ascii "worker-" ++ zeroPadded 2 workerId)

theorem inline_workerTag (workerId : ℕ) : Inline 32 (workerTag workerId) := by
  have h0 : (0 : UInt8) ∉ ascii "worker-" := by decide
  have h10 : (10 : UInt8) ∉ ascii "worker-" := by decide
  refine .snprintf (by decide) ?_ ?_
  · simp [h0, not_mem_zeroPadded _ _ (b := 0) rfl]
  · simp [h10, not_mem_zeroPadded _ _ (b := 10) rfl]

/-- `net_peer_info`: `host` is `inet_ntop`'s text of the address, or `unknown` for one of another
family, with the port, where `getpeername` gives an address. -/
def netPeerInfoText (peer : Option (Bytes × ℕ)) (fd dstLen : ℕ) : Bytes :=
  match peer with
  | none => snprintf dstLen (ascii "unknown fd=" ++ decimal fd)
  | some (host, port) =>
    snprintf dstLen (host ++ ascii ":" ++ decimal port ++ ascii " fd=" ++ decimal fd)

theorem inline_netPeerInfoText {peer : Option (Bytes × ℕ)} {cap : ℕ} (fd : ℕ) {dstLen : ℕ}
    (hpos : 0 < dstLen) (h : ∀ x ∈ peer, Inline cap x.1) :
    Inline dstLen (netPeerInfoText peer fd dstLen) := by
  have hdigits := not_mem_decimal fd (b := 0) rfl
  have hdigits' := not_mem_decimal fd (b := 10) rfl
  cases peer with
  | none =>
      have hunknown : (0 : UInt8) ∉ ascii "unknown fd=" ∧ (10 : UInt8) ∉ ascii "unknown fd=" := by
        decide
      refine .snprintf hpos ?_ ?_
      · simp [hunknown, hdigits]
      · simp [hunknown, hdigits']
  | some x =>
      obtain ⟨host, port⟩ := x
      have hhost := h _ rfl
      have hrest : ((0 : UInt8) ∉ ascii ":" ∧ (0 : UInt8) ∉ ascii " fd=") ∧
          (10 : UInt8) ∉ ascii ":" ∧ (10 : UInt8) ∉ ascii " fd=" := by
        decide
      refine .snprintf hpos ?_ ?_
      · simp [hhost.nul, hrest, hdigits, not_mem_decimal port (b := 0) rfl]
      · simp [hhost.newline, hrest, hdigits', not_mem_decimal port (b := 10) rfl]

/-! ### Messages -/

/-- `message`, of a text. -/
def shownMessage (text : Bytes) : Bytes := snprintf 256 (cstr text)

theorem not_mem_shownMessage {text : Bytes} {b : UInt8} (h : b ∉ text) : b ∉ shownMessage text :=
  fun hm => h ((List.takeWhile_prefix _).subset (List.mem_of_mem_take hm))

/-- What stands near the beginning of a text is shown. -/
theorem mem_shownMessage {before value after : Bytes} {b : UInt8} (h0 : 0 ∉ before ++ value)
    (hlen : (before ++ value).length < 256) (hb : b ∈ value) :
    b ∈ shownMessage (before ++ value ++ after) := by
  have hcstr : cstr (before ++ value ++ after) = before ++ value ++ cstr after := by
    refine List.takeWhile_append_of_pos fun c hc => ?_
    simpa using ne_of_mem_of_not_mem hc h0
  rw [shownMessage, hcstr, snprintf, List.take_append]
  refine List.mem_append_left _ ?_
  rw [List.take_of_length_le (Nat.le_sub_one_of_lt hlen)]
  exact List.mem_append_right _ hb

/-! ### Records -/

/-- `write_line_unlocked` -/
def writeLineUnlocked (line : Bytes) : Bytes := cstr line ++ [10]

/-- What is written of a message. -/
def logRecord (level : LogLevel) (t : LogTime) (threadTag clientInfo text : Bytes) : Bytes :=
  writeLineUnlocked (logLine level (logStamp t) threadTag clientInfo text)

/-- What `log_msg` puts first. -/
def logHead (level : LogLevel) (t : LogTime) : Bytes :=
  logStamp t ++ ascii " [" ++ levelText level ++ ascii "]"

/-- One line with its newline, which begins like this. -/
def OneLine (head bytes : Bytes) : Prop := ∃ rest, bytes = head ++ rest ++ [10] ∧ 10 ∉ head ++ rest

theorem not_mem_levelText (level : LogLevel) : 0 ∉ levelText level ∧ 10 ∉ levelText level := by
  cases level with
  | debug | info | warn | error => decide

theorem length_levelText (level : LogLevel) : (levelText level).length = 5 := by
  cases level with
  | debug | info | warn | error => rfl

/-- Nothing of a line is cut off. -/
theorem logLine_eq (level : LogLevel) (t : LogTime) {threadTag clientInfo : Bytes}
    (htag : Inline 32 threadTag) (hinfo : Inline clientInfoLen clientInfo) (text : Bytes) :
    logLine level (logStamp t) threadTag clientInfo text = logHead level t ++
      (ascii " [" ++ threadTag ++ ascii "] [" ++ clientInfo ++ ascii "] " ++ shownMessage text) := by
  have hstamp := inline_logStamp t
  have hlevel := length_levelText level
  have hshown : (shownMessage text).length ≤ 255 := List.length_take_le ..
  have htag' : threadTag.length < 32 := htag.fits
  have hinfo' : clientInfo.length < 128 := hinfo.fits
  have hwhole : (logStamp t ++ ascii " [" ++ levelText level ++ ascii "] [" ++ threadTag ++
      ascii "] [" ++ clientInfo ++ ascii "] " ++ shownMessage text).length ≤ logLineMax - 1 := by
    have hmax : logLineMax = 512 := rfl
    have hpunct : (ascii " [").length = 2 ∧ (ascii "] [").length = 3 ∧ (ascii "] ").length = 2 := by
      decide
    have hfits := hstamp.fits
    simp only [List.length_append, hlevel, hpunct]
    omega
  rw [logLine, ← shownMessage, cstr_eq_self hstamp.nul, cstr_eq_self htag.nul,
    cstr_eq_self hinfo.nul, snprintf, List.take_of_length_le hwhole, logHead]
  have hjoin : ascii "] [" = ascii "]" ++ ascii " [" := by decide
  simp only [hjoin, List.append_assoc]

/-- A record is one line exactly if the message it shows has no newline. -/
theorem oneLine_logRecord_iff {level : LogLevel} {t : LogTime} {threadTag clientInfo : Bytes}
    (htag : Inline 32 threadTag) (hinfo : Inline clientInfoLen clientInfo) {text : Bytes} :
    OneLine (logHead level t) (logRecord level t threadTag clientInfo text) ↔
      10 ∉ shownMessage text := by
  have hline := logLine_eq level t htag hinfo text
  have hnul := (isLine_logLine level (logStamp t) threadTag clientInfo text).1
  rw [logRecord, writeLineUnlocked, cstr_eq_self hnul, hline]
  constructor
  · rintro ⟨rest, hbytes, h10⟩ hm
    rw [← List.append_cancel_right hbytes] at h10
    refine h10 (List.mem_append_right _ (List.mem_append_right _ hm))
  · intro hm
    refine ⟨_, rfl, ?_⟩
    have hpunct : (10 : UInt8) ∉ ascii " [" ∧ (10 : UInt8) ∉ ascii "]" ∧
        (10 : UInt8) ∉ ascii "] [" ∧ (10 : UInt8) ∉ ascii "] " := by
      decide
    simp [logHead, (inline_logStamp t).newline, (not_mem_levelText level).2, hpunct, htag.newline,
      hinfo.newline, hm]

/-! ### The file -/

theorem inline_droppedLine (dropped : UInt64) : Inline logLineMax (droppedLine dropped) := by
  have h0 : (0 : UInt8) ∉ ascii "logger queue overflow: dropped " ∧
      (0 : UInt8) ∉ ascii " log lines" := by decide
  have h10 : (10 : UInt8) ∉ ascii "logger queue overflow: dropped " ∧
      (10 : UInt8) ∉ ascii " log lines" := by decide
  refine .snprintf (by decide) ?_ ?_
  · simp [h0, not_mem_decimal dropped.toNat (b := 0) rfl]
  · simp [h10, not_mem_decimal dropped.toNat (b := 10) rfl]

/-- Once everything is accounted for, what is in the file is what `write_line_unlocked` made of the
messages there was room for, in order, and of the records of dropped lines: where no message has a
newline, as many whole lines. -/
theorem Accounted.whole {lost : ℕ} {w : LogWorld} (h : Accounted lost w)
    (hplain : ∀ x ∈ w.submitted, IsLine x.1 ∧ 10 ∉ x.1) :
    ∀ l ∈ w.file.map writeLineUnlocked, Whole logLineMax l := by
  obtain ⟨recs, hfile, hwritten, -, -⟩ := h
  have hinline : ∀ r ∈ recs, Inline logLineMax r.text := by
    intro r hr
    cases r with
    | dropped n => exact inline_droppedLine n
    | line text =>
        have hm : text ∈ writtenMessages recs := List.mem_filterMap.mpr ⟨_, hr, rfl⟩
        rw [hwritten] at hm
        obtain ⟨x, hx, htext⟩ := List.mem_filterMap.mp hm
        obtain ⟨hline, h10⟩ := hplain x hx
        split at htext
        · obtain rfl := Option.some.inj htext
          exact ⟨hline.1, h10, hline.2⟩
        · cases htext
  intro l hl
  obtain ⟨line, hm, rfl⟩ := List.mem_map.mp hl
  rw [hfile] at hm
  obtain ⟨r, hr, rfl⟩ := List.mem_map.mp hm
  have hr := hinline r hr
  rw [writeLineUnlocked, cstr_eq_self hr.nul]
  exact ⟨⟨_, rfl, hr.newline⟩, by simpa using hr.fits⟩

end UpdateFramework
