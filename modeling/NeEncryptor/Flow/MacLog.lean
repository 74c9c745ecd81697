import NeEncryptor.Flow.MacTable
import NeEncryptor.Lib.CText

/-!
# The log of the MAC table

The text of the log file, as `mac_fdb_persist_save_locked` writes it and as both functions of
`mac_learn.c` that read it do.  An entry that was written is read back where its port has a name, no
blank in it and no `#` in front.
-/

namespace NeEncryptor.Flow

open CText

/-! ## Reading -/

/-- The `%x` behind a colon. -/
def scanColonHex : List Char → Option (ℕ × List Char)
  | ':' :: s => scanHex s
  | _ => none

/-- `parse_mac_colon`. -/
def parseMacColon (s : List Char) : Option Mac := do
  let (m0, s) ← scanHex s
  let (m1, s) ← scanColonHex s
  let (m2, s) ← scanColonHex s
  let (m3, s) ← scanColonHex s
  let (m4, s) ← scanColonHex s
  let (m5, _) ← scanColonHex s
  some #v[.ofNat m0, .ofNat m1, .ofNat m2, .ofNat m3, .ofNat m4, .ofNat m5]

/-- A copy into `IF_NAMESIZE` bytes. -/
def ifNameOf (s : List Char) : IfName := ⟨s.take 15, List.length_take_le ..⟩

/-- A line of the log, as the `sscanf` of both loops reads it. -/
def parseLine (line : List Char) : MacLine :=
  let s := cString line
  if s.head? = some '#' ∨ s.head? = some '\n' ∨ s.head? = some '\r' then .comment
  else
    match scanWord 15 s with
    | none => .short
    | some (ifname, s) =>
      match scanWord 23 s with
      | none => .short
      | some (mac, _) => .fields (ifNameOf ifname) (parseMacColon mac)

/-- The lines of a file; `line` has 256 bytes. -/
def readLog (file : List Char) : List MacLine := (fgetsLines 255 [] file).map parseLine

/-- What a line holds: a port and a MAC. -/
def MacLine.entry : MacLine → Option MacLearnEntry
  | .fields ifname (some mac) => some ⟨mac, ifname⟩
  | _ => none

/-- The entries that a file holds. -/
def logEntries (file : List Char) : List MacLearnEntry := (readLog file).filterMap MacLine.entry

/-! ## Writing -/

/-- The MAC of a line. -/
def macText (mac : Mac) : List Char :=
  hexByte (mac.get 0) ++ ':' :: (hexByte (mac.get 1) ++ ':' :: (hexByte (mac.get 2) ++ ':' ::
    (hexByte (mac.get 3) ++ ':' :: (hexByte (mac.get 4) ++ ':' :: hexByte (mac.get 5)))))

/-- The line of an entry, without its end. -/
def entryText (e : MacLearnEntry) : List Char :=
  (if e.ifname.chars = [] then ['-'] else e.ifname.chars) ++ ' ' :: macText e.mac

/-- The comment on the first line. -/
def logHeader : List Char :=
  "# NE MAC LAN FDB v2 — ifname mac (one client MAC per LAN port)".toList

/-- A file with these entries. -/
def logText (entries : List MacLearnEntry) : List Char :=
  logHeader ++ '\n' :: entries.flatMap fun e => entryText e ++ ['\n']

/-! ## The round trip -/

/-- A name that `%s` reads, and `fgets` does not cut. -/
structure IfName.Plain (ifname : IfName) : Prop where
  word : Word ifname.chars
  whole : '\x00' ∉ ifname.chars

/-- The line of such a name is no comment either. -/
structure IfName.Readable (ifname : IfName) : Prop extends ifname.Plain where
  noComment : ifname.chars.head? ≠ some '#'

theorem scanColonHex_hexByte (b : UInt8) {rest : List Char}
    (ends : ∀ c, rest.head? = some c → hexValue c = none) :
    scanColonHex (':' :: (hexByte b ++ rest)) = some (b.toNat, rest) :=
  scanHex_hexByte b ends

theorem ends_colon {rest : List Char} :
    ∀ c, (':' :: rest).head? = some c → hexValue c = none := by
  rintro c same
  cases same
  decide

theorem parseMacColon_macText (mac : Mac) : parseMacColon (macText mac) = some mac := by
  have last : scanColonHex (':' :: (hexByte (mac.get 5) ++ [])) = some ((mac.get 5).toNat, []) :=
    scanColonHex_hexByte (mac.get 5) nofun
  rw [List.append_nil] at last
  unfold parseMacColon macText
  rw [scanHex_hexByte _ ends_colon]
  simp only [Option.bind_eq_bind, Option.bind_some, scanColonHex_hexByte _ ends_colon, last,
    UInt8.ofNat_toNat, Option.some.injEq]
  refine Vector.ext fun i inside => ?_
  match i, inside with
  | 0, _ | 1, _ | 2, _ | 3, _ | 4, _ | 5, _ => rfl

theorem hexByte_facts (b : UInt8) : ∀ c ∈ hexByte b, isSpace c = false ∧ c ≠ '\x00' ∧ c ≠ '\n' := by
  have small := b.toNat_lt
  obtain ⟨-, high⟩ := hexDigit_facts (b.toNat / 16) (by omega)
  obtain ⟨-, low⟩ := hexDigit_facts (b.toNat % 16) (by omega)
  intro c mem
  simp only [hexByte, List.mem_cons, List.not_mem_nil, or_false] at mem
  rcases mem with rfl | rfl
  · exact ⟨high.1, high.2.2.2.2.2.1, high.2.2.2.2.2.2⟩
  · exact ⟨low.1, low.2.2.2.2.2.1, low.2.2.2.2.2.2⟩

theorem macText_facts (mac : Mac) :
    ∀ c ∈ macText mac, isSpace c = false ∧ c ≠ '\x00' ∧ c ≠ '\n' := by
  intro c mem
  simp only [macText, List.mem_append, List.mem_cons] at mem
  rcases mem with m | rfl | m | rfl | m | rfl | m | rfl | m | rfl | m
  all_goals first | exact hexByte_facts _ c m | decide

theorem length_macText (mac : Mac) : (macText mac).length = 17 := by
  simp [macText, hexByte]

theorem word_macText (mac : Mac) : Word (macText mac) where
  nonempty := by simp [macText, hexByte]
  solid := fun c mem => (macText_facts mac c mem).1

theorem parseLine_entry (e : MacLearnEntry) (plain : e.ifname.Plain) :
    parseLine (entryText e ++ ['\n']) =
      if e.ifname.chars.head? = some '#' then .comment else .fields e.ifname (some e.mac) := by
  have text : entryText e ++ ['\n'] = e.ifname.chars ++ ' ' :: (macText e.mac ++ ['\n']) := by
    rw [entryText, if_neg plain.word.nonempty, List.append_assoc, List.cons_append]
  have uncut : cString (entryText e ++ ['\n']) = entryText e ++ ['\n'] := by
    refine List.takeWhile_eq_self_iff.mpr fun c mem => ?_
    rw [text] at mem
    simp only [List.mem_append, List.mem_cons, List.not_mem_nil, or_false] at mem
    rw [bne_iff_ne]
    rcases mem with m | rfl | m | rfl
    · exact fun same => plain.whole (same ▸ m)
    · decide
    · exact (macText_facts e.mac c m).2.1
    · decide
  have first : scanWord 15 (entryText e ++ ['\n']) =
      some (e.ifname.chars, ' ' :: (macText e.mac ++ ['\n'])) := by
    rw [text]
    exact scanWord_word plain.word e.ifname.short fun c same => by cases same; rfl
  have second : scanWord 23 (' ' :: (macText e.mac ++ ['\n'])) = some (macText e.mac, ['\n']) := by
    rw [scanWord_blank rfl]
    exact scanWord_word (word_macText e.mac) (by rw [length_macText]; decide) fun c same => by
      cases same; rfl
  have name : ifNameOf e.ifname.chars = e.ifname := by
    rw [ifNameOf]
    congr
    exact List.take_of_length_le e.ifname.short
  have head : (entryText e ++ ['\n']).head? = e.ifname.chars.head? := by
    rw [text, List.head?_append_of_ne_nil _ plain.word.nonempty]
  unfold parseLine
  dsimp only
  rw [uncut, head]
  cases chars : e.ifname.chars with
  | nil => exact absurd chars plain.word.nonempty
  | cons c cs =>
    have solid := plain.word.solid c (by rw [chars]; exact List.mem_cons_self)
    have notLine : c ≠ '\n' ∧ c ≠ '\r' := by
      constructor <;> (rintro rfl; cases solid)
    rw [List.head?_cons]
    by_cases comment : c = '#'
    · rw [comment, if_pos (.inl rfl), if_pos rfl]
    · rw [if_neg (by simp [comment, notLine]), if_neg (by simpa using comment), first]
      dsimp only
      rw [second]
      dsimp only
      rw [name, parseMacColon_macText]

/-- The lines of a file that was written. -/
theorem readLog_logText {entries : List MacLearnEntry} (plain : ∀ e ∈ entries, e.ifname.Plain) :
    readLog (logText entries) = .comment :: entries.map fun e =>
      if e.ifname.chars.head? = some '#' then .comment else .fields e.ifname (some e.mac) := by
  have lines : fgetsLines 255 [] (entries.flatMap fun e => entryText e ++ ['\n']) =
      entries.map fun e => entryText e ++ ['\n'] := by
    induction entries with
    | nil => rfl
    | cons e entries ih =>
      have text := plain e List.mem_cons_self
      have length : (entryText e).length ≤ 33 := by
        have short := e.ifname.short
        rw [entryText, if_neg text.word.nonempty, List.length_append, List.length_cons,
          length_macText]
        omega
      have one : '\n' ∉ entryText e := by
        rw [entryText, if_neg text.word.nonempty]
        simp only [List.mem_append, List.mem_cons, not_or]
        refine ⟨fun mem => ?_, by decide, fun mem => (macText_facts e.mac _ mem).2.2 rfl⟩
        cases text.word.solid _ mem
      rw [List.flatMap_cons, List.append_assoc, List.singleton_append,
        fgetsLines_line one (by rw [List.length_nil]; omega),
        ih fun f mem => plain f (List.mem_cons_of_mem e mem)]
      rfl
  have header : fgetsLines 255 [] (logText entries) =
      (logHeader ++ ['\n']) :: fgetsLines 255 [] (entries.flatMap fun e => entryText e ++ ['\n']) :=
    fgetsLines_line (by decide) (by decide)
  have comment : parseLine (logHeader ++ ['\n']) = .comment := by
    unfold parseLine
    exact if_pos (.inl (by decide))
  rw [readLog, header, lines, List.map_cons, List.map_map, comment]
  exact congrArg _ (List.map_congr_left fun e mem => parseLine_entry e (plain e mem))

/-- What a file that was written holds: all entries whose lines are no comments. -/
theorem logEntries_logText {entries : List MacLearnEntry} (plain : ∀ e ∈ entries, e.ifname.Plain) :
    logEntries (logText entries) = entries.filter fun e => e.ifname.chars.head? ≠ some '#' := by
  rw [logEntries, readLog_logText plain, List.filterMap_cons_none rfl, List.filterMap_map]
  clear plain
  induction entries with
  | nil => rfl
  | cons e entries ih =>
    by_cases comment : e.ifname.chars.head? = some '#'
    · rw [List.filterMap_cons_none (by simp [comment, MacLine.entry]), ih,
        List.filter_cons_of_neg (by simp [comment])]
    · rw [List.filterMap_cons_some (b := e) (by simp [comment, MacLine.entry]), ih,
        List.filter_cons_of_pos (by simp [comment])]

/-- Whatever a line says, the name in it is plain. -/
theorem plain_of_parseLine {line : List Char} {e : MacLearnEntry}
    (read : (parseLine line).entry = some e) : e.ifname.Plain := by
  unfold parseLine at read
  dsimp only at read
  split at read
  · cases read
  split at read
  · cases read
  · rename_i ifname rest first
    obtain ⟨word, short, part⟩ := word_of_scanWord first
    split at read
    · cases read
    · rename_i mac _ second
      cases parsed : parseMacColon mac with
      | none =>
        rw [parsed] at read
        cases read
      | some m =>
        rw [parsed] at read
        cases read
        have chars : (ifNameOf ifname).chars = ifname := List.take_of_length_le short
        constructor
        · dsimp only
          rwa [chars]
        · dsimp only
          rw [chars]
          intro nul
          have kept := List.mem_takeWhile_imp (part _ nul)
          cases kept

theorem plain_of_logEntries {file : List Char} {e : MacLearnEntry} (mem : e ∈ logEntries file) :
    e.ifname.Plain := by
  obtain ⟨line, inside, read⟩ := List.mem_filterMap.mp mem
  obtain ⟨text, -, rfl⟩ := List.mem_map.mp inside
  exact plain_of_parseLine read

end NeEncryptor.Flow
