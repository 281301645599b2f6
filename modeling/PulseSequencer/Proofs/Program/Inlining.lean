import PulseSequencer.Program.Source
import PulseSequencer.Proofs.Except
import PulseSequencer.Proofs.Table
import Mathlib.Logic.Relation

/-
# PulseSequencer.Proofs.Program.Inlining -- included files stand in the place of their names

`SourceSet.inline` follows the files as they insert each other, without a bound on how
deep they nest: it ends since a file is opened only where it is not open, and so
`splice` never runs out of depth (`splice_eq_inline`).  It succeeds exactly if each file
that is reached inserts only files that are there and not open (`inline_ok_iff`), and what
it adds are the lines and the files of an inlining by text, `Inlines` (`adds_of_inline`).
-/

namespace PulseSequencer

set_option autoImplicit false

namespace SourceSet

variable {texts : Table String String}

theorem lines_addFile (s : SourceSet) (name text : String) :
    (s.addFile name text).lines = s.lines := by
  rw [addFile]
  split <;> rfl

theorem chars_numbered (text : String) :
    (numbered text).map Prod.snd = Text.lines text.toList := by
  rw [numbered, List.map_map]
  exact List.zipIdx_map_fst 0 _

/-! ## Without a bound -/

/-- How many files are not open. -/
def unopened (texts : Table String String) (stack : List String) : Nat :=
  (texts.keys.filter (· ∉ stack)).length

theorem unopened_lt {stack : List String} {file text : String} (closed : file ∉ stack)
    (found : texts.get? file = some text) :
    unopened texts (file :: stack) < unopened texts stack := by
  have there : file ∈ texts.keys.filter (· ∉ stack) :=
    List.mem_filter.2 ⟨Table.mem_keys_iff.2 ⟨text, found⟩, decide_eq_true closed⟩
  have fewer : texts.keys.filter (· ∉ file :: stack) =
      (texts.keys.filter (· ∉ stack)).filter (· ≠ file) := by
    rw [List.filter_filter]
    refine List.filter_congr fun other _ => ?_
    simp [not_or]
  rw [unopened, fewer, unopened, List.length_filter_lt_length_iff_exists]
  exact ⟨file, there, by simp⟩

/-- Adds the lines of a file and of all it inserts, however deep they nest. -/
def inline (texts : Table String String) (opened : List String) (name text : String)
    (s : SourceSet) : Except LineError SourceSet :=
  (numbered text).foldlM (fun s (line, chars) =>
      let fail (fault : LineFault) : LineError := ⟨name, line, String.ofList chars, fault⟩
      match inserted? chars with
      | none => .ok { s with lines := s.lines.push ⟨name, line, String.ofList chars⟩ }
      | some file =>
          if _closed : file ∉ name :: opened then
            match _found : texts.get? file with
            | none => .error (fail (.cannotInsert file file))
            | some included => inline texts (name :: opened) file included s
          else .error (fail (.recursiveInsert file)))
    (s.addFile name text)
termination_by unopened texts (name :: opened)
decreasing_by exact unopened_lt _closed _found

theorem read_ofTexts (texts : Table String String) (file : String) :
    (Library.ofTexts texts).read file = (texts.get? file).elim (.error file) .ok :=
  rfl

/-- **The depth suffices** if it is that of the files that are not open. -/
theorem splice_eq_inline {depth : Nat} {opened : List String} {name : String} (text : String)
    (s : SourceSet) (room : unopened texts (name :: opened) ≤ depth) :
    splice (.ofTexts texts) (depth + 1) opened name text s = inline texts opened name text s := by
  -- each file that is opened leaves fewer that are not, and so a smaller depth suffices
  induction depth using Nat.strongRecOn generalizing opened name text s with
  | ind depth ih =>
      rw [splice, inline]
      refine congrArg (fun step => List.foldlM step (s.addFile name text) (numbered text)) ?_
      funext s ⟨line, chars⟩
      dsimp only
      cases inserted? chars with
      | none => rfl
      | some file =>
          dsimp only
          by_cases closed : file ∉ name :: opened
          · rw [dif_pos closed, if_neg closed]
            cases found : texts.get? file with
            | none =>
                rw [read_ofTexts, found]
                rfl
            | some included =>
                rw [read_ofTexts, found]
                have fewer := unopened_lt closed found
                obtain ⟨below, rfl⟩ : ∃ below, depth = below + 1 :=
                  Nat.exists_eq_succ_of_ne_zero (by omega)
                exact ih below (Nat.lt_succ_self _) included s (by omega)
          · rw [dif_neg closed, if_pos (Classical.not_not.1 closed)]
            rfl

/-- **Inclusion ends by itself**: the depth that `expand` allows is never used up. -/
theorem expand_eq_inline (texts : Table String String) (name text : String) :
    expand name text (.ofTexts texts) = inline texts [] name text {} := by
  refine splice_eq_inline text {} (Nat.le_trans (List.length_filter_le ..) ?_)
  exact Nat.le_of_eq (List.length_map ..)

/-! ## Inlining by text -/

/-- What lines of a file stand for, with each `insert` line replaced by what the lines of
the named file stand for; and the files that come in that way, in order. -/
inductive Inlines (texts : Table String String) :
    String → List (Nat × List Char) → List SourceLine → List (String × String) → Prop
  | nil {name : String} : Inlines texts name [] [] []
  | line {name : String} {number : Nat} {chars : List Char} {rest : List (Nat × List Char)}
      {lines : List SourceLine} {files : List (String × String)}
      (plain : inserted? chars = none) (onward : Inlines texts name rest lines files) :
      Inlines texts name ((number, chars) :: rest)
        (⟨name, number, String.ofList chars⟩ :: lines) files
  | insert {name file text : String} {number : Nat} {chars : List Char}
      {rest : List (Nat × List Char)} {inner lines : List SourceLine}
      {more files : List (String × String)}
      (inserts : inserted? chars = some file) (found : texts.get? file = some text)
      (inside : Inlines texts file (numbered text) inner more)
      (onward : Inlines texts name rest lines files) :
      Inlines texts name ((number, chars) :: rest) (inner ++ lines)
        ((file, text) :: (more ++ files))

/-- Lines stand for one thing only. -/
theorem Inlines.unique {name : String} {entries : List (Nat × List Char)}
    {lines lines' : List SourceLine} {files files' : List (String × String)}
    (first : Inlines texts name entries lines files)
    (second : Inlines texts name entries lines' files') : lines' = lines ∧ files' = files := by
  induction first generalizing lines' files' with
  | nil =>
      cases second
      exact ⟨rfl, rfl⟩
  | line plain _ ih =>
      cases second with
      | line _ onward =>
          obtain ⟨rfl, rfl⟩ := ih onward
          exact ⟨rfl, rfl⟩
      | insert inserts =>
          rw [plain] at inserts
          cases inserts
  | insert inserts found _ _ ihInside ihOnward =>
      cases second with
      | line plain =>
          rw [inserts] at plain
          cases plain
      | insert inserts' found' inside onward =>
          obtain rfl := Option.some.inj (inserts.symm.trans inserts')
          obtain rfl := Option.some.inj (found.symm.trans found')
          obtain ⟨rfl, rfl⟩ := ihInside inside
          obtain ⟨rfl, rfl⟩ := ihOnward onward
          exact ⟨rfl, rfl⟩

/-- Files that come in have the texts that they have in the library. -/
theorem Inlines.get? {name : String} {entries : List (Nat × List Char)} {lines : List SourceLine}
    {files : List (String × String)} (inlines : Inlines texts name entries lines files) :
    ∀ f ∈ files, texts.get? f.1 = some f.2 := by
  induction inlines with
  | nil => exact fun _ there => absurd there List.not_mem_nil
  | line _ _ ih => exact ih
  | insert _ found _ _ ihInside ihOnward =>
      exact List.forall_mem_cons.2 ⟨found, List.forall_mem_append.2 ⟨ihInside, ihOnward⟩⟩

/-- The files with one more, unless its name is there. -/
def withFile (files : Table String String) (file : String × String) : Table String String :=
  if files.contains file.1 then files else files.insert file.1 file.2

theorem files_addFile (s : SourceSet) (name text : String) :
    (s.addFile name text).files = withFile s.files (name, text) := by
  rw [addFile, withFile]
  split <;> rfl

/-- What lines of a file add, behind what was there. -/
structure Adds (texts : Table String String) (stack : List String) (name : String)
    (entries : List (Nat × List Char)) (s t : SourceSet) (lines : List SourceLine)
    (files : List (String × String)) : Prop where
  inlines : Inlines texts name entries lines files
  lines_eq : t.lines.toList = s.lines.toList ++ lines
  files_eq : t.files = files.foldl withFile s.files
  closed : ∀ f ∈ files, f.1 ∉ stack

/-- **Each line adds what it stands for.** -/
theorem adds_of_inline {opened : List String} {name text : String} {s t : SourceSet}
    (inlined : inline texts opened name text s = .ok t) :
    ∃ lines files,
      Adds texts (name :: opened) name (numbered text) (s.addFile name text) t lines files := by
  -- the outer induction is on the files inside of each other, the inner one on the lines
  induction opened, name, text, s using inline.induct texts generalizing t with
  | case1 opened name text s ih =>
      rw [inline] at inlined
      generalize s.addFile name text = s at inlined ⊢
      generalize numbered text = entries at inlined ⊢
      induction entries generalizing s with
      | nil =>
          obtain rfl := Except.ok.inj inlined
          exact ⟨[], [], .nil, (List.append_nil _).symm, rfl,
            fun _ there => absurd there List.not_mem_nil⟩
      | cons entry rest ihRest =>
          obtain ⟨line, chars⟩ := entry
          rw [List.foldlM_cons] at inlined
          obtain ⟨u, first, onward⟩ := bind_eq_ok.1 inlined
          obtain ⟨lines, files, adds⟩ := ihRest u onward
          dsimp only at first
          split at first
          · rename_i plain
            obtain rfl := Except.ok.inj first
            exact ⟨_, files, .line plain adds.inlines, by simp [adds.lines_eq], adds.files_eq,
              adds.closed⟩
          · rename_i file inserts
            split at first
            · rename_i closed
              split at first
              · cases first
              · rename_i included found
                obtain ⟨inner, more, inside⟩ := ih s file closed included found first
                refine ⟨inner ++ lines, (file, included) :: (more ++ files),
                  .insert inserts found inside.inlines adds.inlines, ?_, ?_, ?_⟩
                · rw [adds.lines_eq, inside.lines_eq, lines_addFile, List.append_assoc]
                · rw [adds.files_eq, inside.files_eq, files_addFile, List.foldl_cons,
                    List.foldl_append]
                · refine List.forall_mem_cons.2 ⟨closed, List.forall_mem_append.2 ⟨?_, adds.closed⟩⟩
                  exact fun f there opened => inside.closed f there (List.mem_cons_of_mem _ opened)
            · cases first

/-! ## The files in order -/

theorem entries_withFile {files : Table String String} {base : List (String × String)}
    (held : files.entries = base.eraseDups) (file : String × String)
    (same : ∀ other ∈ base, other.1 = file.1 → other = file) :
    (withFile files file).entries = (base ++ [file]).eraseDups := by
  have known : file.1 ∈ files.keys ↔ file ∈ base := by
    rw [Table.keys, held, List.mem_map]
    constructor
    · rintro ⟨other, there, name⟩
      have there' := List.mem_eraseDups.1 there
      exact same other there' name ▸ there'
    · exact fun there => ⟨file, List.mem_eraseDups.2 there, rfl⟩
  rw [withFile, List.eraseDups_append, ← held]
  by_cases there : file ∈ base
  · have contained : files.contains file.1 = true := by
      rw [← Bool.not_eq_false, Table.contains_eq_false_iff, Classical.not_not]
      exact known.2 there
    rw [if_pos contained]
    simp [List.removeAll, there]
  · have absent : file.1 ∉ files.keys := fun key => there (known.1 key)
    rw [if_neg (Bool.not_eq_true _ ▸ Table.contains_eq_false_iff.2 absent),
      Table.entries_insert_of_not_mem absent]
    simp [List.removeAll, there, List.eraseDups_cons]

/-- Files with one text for each name are kept in the order in which they first come. -/
theorem entries_foldl_withFile {files : Table String String} {base more : List (String × String)}
    (held : files.entries = base.eraseDups) (text? : String → Option String)
    (agree : ∀ file ∈ base ++ more, text? file.1 = some file.2) :
    (more.foldl withFile files).entries = (base ++ more).eraseDups := by
  induction more generalizing files base with
  | nil => rw [List.append_nil]; exact held
  | cons file rest ih =>
      have next := entries_withFile held file fun other there name => by
        have first := agree other (List.mem_append_left _ there)
        have second := agree file (List.mem_append_right _ (List.mem_cons_self ..))
        rw [name, second] at first
        exact Prod.ext name (Option.some.inj first).symm
      rw [List.foldl_cons, ih next (by rwa [List.append_assoc]), List.append_assoc]
      rfl

/-! ## Success -/

/-- The names of the files that the lines of a text insert. -/
def insertions (text : String) : List String :=
  (Text.lines text.toList).filterMap inserted?

theorem mem_insertions {file text : String} :
    file ∈ insertions text ↔ ∃ entry ∈ numbered text, inserted? entry.2 = some file := by
  rw [insertions, ← chars_numbered, List.filterMap_map, List.mem_filterMap]
  rfl

/-- Files that are open inside each other, and the text of the innermost. -/
structure Nesting where
  /-- Innermost first. -/
  stack : List String
  text : String

/-- A line of the innermost file opens another one. -/
inductive Opens (texts : Table String String) : Nesting → Nesting → Prop
  | insert {n : Nesting} {file included : String} (inserts : file ∈ insertions n.text)
      (found : texts.get? file = some included) : Opens texts n ⟨file :: n.stack, included⟩

/-- All files that are reached insert only files that are there and not open. -/
def Sound (texts : Table String String) (n : Nesting) : Prop :=
  ∀ reached, Relation.ReflTransGen (Opens texts) n reached →
    ∀ file ∈ insertions reached.text,
      (texts.get? file).isSome = true ∧ file ∉ reached.stack

theorem sound_iff {n : Nesting} : Sound texts n ↔ ∀ file ∈ insertions n.text,
    file ∉ n.stack ∧ ∃ included, texts.get? file = some included ∧
      Sound texts ⟨file :: n.stack, included⟩ := by
  constructor
  · intro sound file inserts
    obtain ⟨there, closed⟩ := sound n .refl file inserts
    obtain ⟨included, found⟩ := Option.isSome_iff_exists.1 there
    exact ⟨closed, included, found, fun reached path => sound reached
      (.head (.insert inserts found) path)⟩
  · intro each reached path
    rcases path.cases_head with rfl | ⟨next, opens, path⟩
    · intro file inserts
      obtain ⟨closed, included, found, _⟩ := each file inserts
      exact ⟨found ▸ rfl, closed⟩
    · cases opens with
      | insert inserts found =>
          obtain ⟨_, included, found', sound⟩ := each _ inserts
          obtain rfl := Option.some.inj (found'.symm.trans found)
          exact sound reached path

/-- Steps that succeed for some elements, whatever came before, succeed in a row for them. -/
theorem foldlM_ok_iff {α σ ε : Type} {step : σ → α → Except ε σ} {P : α → Prop}
    (each : ∀ s a, (∃ t, step s a = .ok t) ↔ P a) (xs : List α) (s : σ) :
    (∃ t, xs.foldlM step s = .ok t) ↔ ∀ a ∈ xs, P a := by
  induction xs generalizing s with
  | nil => exact ⟨fun _ _ there => absurd there List.not_mem_nil, fun _ => ⟨s, rfl⟩⟩
  | cons a rest ih =>
      rw [List.forall_mem_cons, List.foldlM_cons]
      simp only [bind_eq_ok]
      constructor
      · rintro ⟨t, u, first, onward⟩
        exact ⟨(each s a).1 ⟨u, first⟩, (ih u).1 ⟨t, onward⟩⟩
      · rintro ⟨here, others⟩
        obtain ⟨u, first⟩ := (each s a).2 here
        obtain ⟨t, onward⟩ := (ih u).2 others
        exact ⟨t, u, first, onward⟩

/-- **Inclusion succeeds exactly for sound files.** -/
theorem inline_ok_iff {opened : List String} {name text : String} {s : SourceSet} :
    (∃ t, inline texts opened name text s = .ok t) ↔ Sound texts ⟨name :: opened, text⟩ := by
  induction opened, name, text, s using inline.induct texts with
  | case1 opened name text s ih =>
      rw [inline, sound_iff, foldlM_ok_iff (P := fun entry => ∀ file,
        inserted? entry.2 = some file → file ∉ name :: opened ∧ ∃ included,
          texts.get? file = some included ∧ Sound texts ⟨file :: name :: opened, included⟩)]
      · simp only [mem_insertions]
        constructor
        · rintro each file ⟨entry, there, inserts⟩
          exact each entry there file inserts
        · exact fun each entry there file inserts => each file ⟨entry, there, inserts⟩
      · rintro s ⟨line, chars⟩
        dsimp only
        cases inserted? chars with
        | none =>
            constructor
            · rintro _ _ ⟨⟩
            · exact fun _ => ⟨_, rfl⟩
        | some file =>
            dsimp only
            by_cases closed : file ∉ name :: opened
            · rw [dif_pos closed]
              cases found : texts.get? file with
              | none =>
                  constructor
                  · rintro ⟨_, ⟨⟩⟩
                  · intro each
                    obtain ⟨_, _, found', _⟩ := each file rfl
                    rw [found] at found'
                    cases found'
              | some included =>
                  rw [ih s file closed included found]
                  constructor
                  · rintro sound _ ⟨⟩
                    exact ⟨closed, included, found, sound⟩
                  · intro each
                    obtain ⟨_, _, found', sound⟩ := each file rfl
                    obtain rfl := Option.some.inj (found.symm.trans found')
                    exact sound
            · rw [dif_neg closed]
              constructor
              · rintro ⟨_, ⟨⟩⟩
              · exact fun each => absurd (each file rfl).1 closed

/-- **Inclusion is inlining by text.**  It ends without a bound on how files nest, and
succeeds exactly if every file that is reached inserts only files that are there and not
open.  Then the lines are what the lines of the main file stand for, and the files are the
main file and those that come in, each where it first comes. -/
theorem expand_inlines (texts : Table String String) (name text : String) :
    expand name text (.ofTexts texts) = inline texts [] name text {} ∧
    ((∃ s, expand name text (.ofTexts texts) = .ok s) ↔ Sound texts ⟨[name], text⟩) ∧
    ∀ s, expand name text (.ofTexts texts) = .ok s → ∃ inserted,
      (∀ lines files, Inlines texts name (numbered text) lines files ↔
        lines = s.lines.toList ∧ files = inserted) ∧
      s.files.entries = ((name, text) :: inserted).eraseDups := by
  rw [expand_eq_inline]
  refine ⟨rfl, inline_ok_iff, fun s inlined => ?_⟩
  obtain ⟨lines, files, inlines, lines_eq, files_eq, closed⟩ := adds_of_inline inlined
  have same : s.lines.toList = lines := by
    rw [lines_eq, lines_addFile]
    rfl
  refine ⟨files, fun lines' files' => ⟨fun other => ?_, ?_⟩, ?_⟩
  · rw [same]
    exact inlines.unique other
  · rintro ⟨rfl, rfl⟩
    exact same ▸ inlines
  · rw [files_eq]
    -- the main file has a text of its own, and is never among the others
    refine @entries_foldl_withFile _ [(name, text)] files ?_
      (fun file => if file = name then some text else texts.get? file) ?_
    · rw [files_addFile]
      rfl
    · refine List.forall_mem_cons.2 ⟨if_pos rfl, fun file there => ?_⟩
      have other : file.1 ≠ name := fun main => closed file there (List.mem_singleton.2 main)
      rw [if_neg other]
      exact inlines.get? file there

/-- Two files that insert a third one. -/
def diamond : Table String String :=
  .ofList [("a.pp", "insert c.pp\nNOP"), ("b.pp", "insert c.pp # again"), ("c.pp", "var x 1")]

theorem expand_inlines_diamond :
    let text := "insert a.pp\ninsert b.pp\nEND"
    ∃ s inserted, expand "main.pp" text (.ofTexts diamond) = .ok s ∧
      Sound diamond ⟨["main.pp"], text⟩ ∧
      Inlines diamond "main.pp" (numbered text) s.lines.toList inserted ∧
      s.lines.toList = [⟨"c.pp", 1, "var x 1"⟩, ⟨"a.pp", 2, "NOP"⟩, ⟨"c.pp", 1, "var x 1"⟩,
        ⟨"main.pp", 3, "END"⟩] ∧
      s.files.keys = ["main.pp", "a.pp", "c.pp", "b.pp"] ∧
      s.files.entries = (("main.pp", text) :: inserted).eraseDups := by
  intro text
  have made : (expand "main.pp" text (.ofTexts diamond)).toOption.map
      (fun s => (s.lines.toList, s.files.keys)) = some (
        [⟨"c.pp", 1, "var x 1"⟩, ⟨"a.pp", 2, "NOP"⟩, ⟨"c.pp", 1, "var x 1"⟩,
          ⟨"main.pp", 3, "END"⟩], ["main.pp", "a.pp", "c.pp", "b.pp"]) := by
    decide +kernel
  obtain ⟨_, sound, inlining⟩ := expand_inlines diamond "main.pp" text
  cases expanded : expand "main.pp" text (.ofTexts diamond) with
  | error e =>
      rw [expanded] at made
      cases made
  | ok s =>
      rw [expanded] at made
      obtain ⟨lines, keys⟩ := Prod.mk.inj (Option.some.inj made)
      obtain ⟨inserted, inlines, entries⟩ := inlining s expanded
      exact ⟨s, inserted, rfl, sound.1 ⟨s, expanded⟩, (inlines _ _).2 ⟨rfl, rfl⟩, lines, keys,
        entries⟩

end SourceSet

end PulseSequencer
