import Mathlib.Data.List.Forall2
import Mathlib.Data.List.Nodup
import QualityScript.Proofs.Ron.Texts
import QualityScript.Ron.Reader

/-!
# Written values are read back

A reader reads a value from what was written if it takes exactly that text wherever a delimiter
follows. Lists, maps and records are read back when their members are: each member stands on a line of
its own, and the reader passes over the indentation and takes the comma. A level of nesting costs a
level of depth, so what is needed of the rules is the number of levels that open.
-/

namespace QualityScript.Ron

theorem skip_blank {c : Char} (h : isBlank c) (rest : List Char) : skip (c :: rest) = skip rest := by
  simp only [isBlank, Bool.or_eq_true, beq_iff_eq] at h
  obtain ((rfl | rfl) | rfl) | rfl := h <;> rfl

theorem skip_self {c : Char} (hblank : isBlank c = false) (hslash : c ≠ '/') (rest : List Char) :
    skip (c :: rest) = some (c :: rest) := by
  unfold skip skipIn
  split <;> simp_all

theorem skip_indent (level : Nat) (rest : List Char) : skip (indent level ++ rest) = skip rest := by
  unfold indent
  generalize 4 * level = n
  induction n with
  | zero => rfl
  | succ n ih => rw [List.replicate_succ, List.cons_append, skip_blank rfl, ih]

/-- The first character is no blank, begins no comment or attribute and closes nothing. -/
def Starts (chars : List Char) : Prop :=
  ∃ c rest, chars = c :: rest ∧ isBlank c = false ∧ c ∉ ['/', '#', ')', ']', '\x7d']

theorem Starts.skip_append {chars : List Char} (h : Starts chars) (rest : List Char) :
    skip (chars ++ rest) = some (chars ++ rest) := by
  obtain ⟨c, more, rfl, hblank, hmark⟩ := h
  refine skip_self hblank (fun hc => hmark ?_) _
  rw [hc]
  exact .head _

theorem skip_closing {closing : Char} (h : closing ∈ [')', ']', '\x7d']) (rest : List Char) :
    skip (closing :: rest) = some (closing :: rest) := by
  simp only [List.mem_cons, List.not_mem_nil, or_false] at h
  obtain rfl | rfl | rfl := h <;> exact skip_self rfl (by decide) rest

/-! ## Reading what was written -/

/-- No name goes on here. -/
def Delimits (rest : List Char) : Prop := rest.head?.any isRawNameChar = false

/-- From these characters the reader takes the value, where so many levels may still open. -/
structure Reads {α : Type} (value : Reader α) (levels : Nat) (chars : List Char) (a : α) : Prop where
  starts : Starts chars
  reads : ∀ {rules : Rules} {rest : List Char}, levels ≤ rules.depth →
    chars.length ≤ rules.members → Delimits rest → value rules (chars ++ rest) = some (a, rest)

variable {α β κ : Type} {value : Reader α} {levels : Nat} {chars : List Char} {a : α}

namespace Reads

theorem mono {more : Nat} (h : Reads value levels chars a) (hle : levels ≤ more) :
    Reads value more chars a :=
  ⟨h.starts, fun hdepth => h.reads (Nat.le_trans hle hdepth)⟩

theorem map (h : Reads value levels chars a) (f : α → β) :
    Reads (Reader.map f value) levels chars (f a) :=
  ⟨h.starts, fun hdepth hmembers hrest => by
    rw [Reader.map, h.reads hdepth hmembers hrest, Option.map_some]⟩

end Reads

theorem deeper_eq {rules : Rules} (h : levels + 1 ≤ rules.depth) (value : Reader α)
    (text : List Char) :
    ∃ inner : Rules, levels ≤ inner.depth ∧ inner.members = rules.members ∧
      Reader.deeper value rules text = value inner text := by
  unfold Reader.deeper
  split
  · omega
  · next depth hdepth => exact ⟨{ rules with depth }, by simp; omega, rfl, rfl⟩

theorem Reads.deeper (h : Reads value levels chars a) :
    Reads (Reader.deeper value) (levels + 1) chars a :=
  ⟨h.starts, fun {rules rest} hdepth hmembers hrest => by
    obtain ⟨inner, hle, hsame, heq⟩ := deeper_eq hdepth value (chars ++ rest)
    rw [heq]
    exact h.reads hle (hsame ▸ hmembers) hrest⟩

theorem reads_text (s : String) : Reads Reader.text 0 (writtenText s) s :=
  ⟨⟨'"', _, rfl, rfl, by decide⟩, fun _ _ _ => text?_writtenText s _⟩

/-! ## Names -/

/-- A name of at least two characters, none of which only a raw name may hold. -/
def isPlainName (name : String) : Bool :=
  match name.toList with
  | c :: d :: rest => isNameStart c && (d :: rest).all isNameChar
  | _ => false

theorem Delimits.spans {rest : List Char} (h : Delimits rest) :
    rest.takeWhile isNameChar = [] ∧ rest.dropWhile isNameChar = rest := by
  cases rest with
  | nil => exact ⟨rfl, rfl⟩
  | cons c rest =>
    have hc : isNameChar c = false := by
      simp only [Delimits, List.head?_cons, Option.any_some, isRawNameChar,
        Bool.or_eq_false_iff] at h
      exact h.1.1.1
    simp [hc]

theorem name?_append {name : String} (h : isPlainName name) {rest : List Char}
    (hrest : Delimits rest) : name? (name.toList ++ rest) = some (name, rest) := by
  unfold isPlainName at h
  split at h
  · next c d more hname =>
    obtain ⟨hstart, hmore⟩ := Bool.and_eq_true_iff.mp h
    rw [List.all_eq_true] at hmore
    obtain ⟨htake, hdrop⟩ := hrest.spans
    have htaken : (d :: (more ++ rest)).takeWhile isNameChar = d :: more := by
      rw [← List.cons_append, List.takeWhile_append_of_pos hmore, htake, List.append_nil]
    have hdropped : (d :: (more ++ rest)).dropWhile isNameChar = rest := by
      rw [← List.cons_append, List.dropWhile_append_of_pos hmore, hdrop]
    have hd : isNameChar d := hmore d (.head _)
    have hofList : String.ofList (c :: d :: more) = name := by rw [← hname, String.ofList_toList]
    rw [hname, List.cons_append, List.cons_append]
    unfold name?
    split
    · next heq =>
      cases heq
      cases hd
    · next heq =>
      cases heq
      cases hd
    · next heq =>
      cases heq
      rw [if_pos hstart, hdropped, htaken, hofList]
      exact if_neg (Bool.eq_false_iff.mp hrest)
    · next heq => cases heq
  · cases h

theorem starts_name {name : String} (h : isPlainName name) : Starts name.toList := by
  unfold isPlainName at h
  split at h
  · next c d more hname =>
    rw [hname]
    have hc : isNameStart c := (Bool.and_eq_true_iff.mp h).1
    refine ⟨c, d :: more, rfl, ?_, fun hmem => ?_⟩
    · cases hblank : isBlank c with
      | false => rfl
      | true =>
        simp only [isBlank, Bool.or_eq_true, beq_iff_eq] at hblank
        obtain ((rfl | rfl) | rfl) | rfl := hblank <;> cases hc
    · simp only [List.mem_cons, List.not_mem_nil, or_false] at hmem
      obtain rfl | rfl | rfl | rfl | rfl := hmem <;> cases hc
  · cases h

theorem reads_name {name : String} (h : isPlainName name) :
    Reads (fun _ => name?) 0 name.toList name :=
  ⟨starts_name h, fun _ _ hrest => name?_append h hrest⟩

theorem reads_word {ofName? : String → Option α} {name : String} (h : isPlainName name)
    (ha : ofName? name = some a) : Reads (Reader.word ofName?) 1 name.toList a := by
  have hinner : Reads (fun rules text => (name? text).bind fun found =>
      ((ofName? found.1).map Reader.pure).bind fun value => value rules found.2) 0 name.toList a :=
    ⟨starts_name h, fun {rules rest} _ _ hrest => by
      simp only [name?_append h hrest, Option.bind_some, ha, Option.map_some, Reader.pure]⟩
  exact hinner.deeper

theorem reads_none : Reads (Reader.option value) 0 "None".toList none :=
  ⟨⟨'N', _, rfl, rfl, by decide⟩, fun _ _ _ => rfl⟩

theorem Reads.some (h : Reads value levels chars a) :
    Reads (Reader.option value) (levels + 1) ("Some(".toList ++ chars ++ [')']) (some a) := by
  refine ⟨⟨'S', _, rfl, rfl, by decide⟩, fun {rules rest} hdepth hmembers _ => ?_⟩
  obtain ⟨inner, hle, hsame, heq⟩ := deeper_eq hdepth value (chars ++ ')' :: rest)
  have hlength : chars.length ≤ inner.members := by
    simp only [List.length_append] at hmembers
    omega
  have hinside : value inner (chars ++ ')' :: rest) = .some (a, ')' :: rest) :=
    h.reads hle hlength rfl
  have hchars : "Some(".toList ++ chars ++ [')'] ++ rest =
      'S' :: 'o' :: 'm' :: 'e' :: '(' :: (chars ++ ')' :: rest) := by
    simp
  have hcomma : comma? (')' :: rest) = .some (false, ')' :: rest) := by
    simp [comma?, skip_closing]
  rw [hchars]
  change (do
    let rest ← skip ('(' :: (chars ++ ')' :: rest))
    _) = _
  rw [skip_self rfl (by decide)]
  simp only [Reader.map, Reader.enclosed, h.starts.skip_append, heq, hinside, hcomma,
    Option.bind_eq_bind, Option.bind_some, List.head?_cons, if_true]
  rfl

/-! ## Members -/

/-- The lines of members, and what follows them. -/
def lines (level : Nat) (items : List (List Char)) (after : List Char) : List Char :=
  items.flatMap (fun m => indent (level + 1) ++ m ++ [',', '\n']) ++ indent level ++ after

theorem block_append (opening closing : Char) (level : Nat) (items : List (List Char))
    (rest : List Char) :
    block opening closing level items ++ rest =
      opening :: '\n' :: lines level items (closing :: rest) := by
  simp [block, lines]

theorem lines_cons (level : Nat) (item : List Char) (items : List (List Char))
    (after : List Char) :
    lines level (item :: items) after =
      indent (level + 1) ++ (item ++ ',' :: '\n' :: lines level items after) := by
  simp [lines]

/-- Two characters for each line at least. -/
theorem length_lt_length_block (opening closing : Char) (level : Nat)
    (items : List (List Char)) : items.length < (block opening closing level items).length := by
  have hlines : items.length ≤
      (items.flatMap fun m => indent (level + 1) ++ m ++ [',', '\n']).length := by
    induction items with
    | nil => exact Nat.le_refl 0
    | cons item items ih =>
      simp only [List.flatMap_cons, List.length_append, List.length_cons]
      omega
  simp only [block, List.length_cons, List.length_append]
  omega

theorem length_le_length_block {opening closing : Char} {level : Nat} {items : List (List Char)}
    {item : List Char} (h : item ∈ items) :
    item.length ≤ (block opening closing level items).length := by
  obtain ⟨front, back, rfl⟩ := List.append_of_mem h
  simp only [block, List.flatMap_append, List.flatMap_cons, List.length_cons, List.length_append]
  omega

section

variable {member : Reader α} {opening closing : Char} {level : Nat} {items : List (List Char)}
  {values : List α}

theorem exists_skip_lines (hclosing : closing ∈ [')', ']', '\x7d'])
    (h : List.Forall₂ (Reads member levels) items values) (level : Nat) (rest : List Char) :
    ∃ text, skip (lines level items (closing :: rest)) = some text ∧ skip text = some text := by
  cases h with
  | nil =>
    refine ⟨closing :: rest, ?_, skip_closing hclosing rest⟩
    rw [lines, List.flatMap_nil, List.nil_append, skip_indent, skip_closing hclosing]
  | cons hitem h =>
    rw [lines_cons, skip_indent]
    exact ⟨_, hitem.starts.skip_append _, hitem.starts.skip_append _⟩

/-- Members are read line by line. `text` is anything that has the lines behind blanks. -/
theorem membersFrom_lines (hclosing : closing ∈ [')', ']', '\x7d']) {rules : Rules}
    (hdepth : levels ≤ rules.depth) (hitems : ∀ item ∈ items, item.length ≤ rules.members)
    (h : List.Forall₂ (Reads member levels) items values) {count : Nat}
    (hcount : items.length < count) {text rest : List Char}
    (htext : skip text = skip (lines level items (closing :: rest))) :
    Reader.membersFrom closing (member rules) count true text = some (values, rest) := by
  induction h generalizing count text with
  | nil =>
    obtain ⟨count, rfl⟩ := Nat.exists_eq_add_of_le' (Nat.one_le_of_lt hcount)
    have hend : skip text = some (closing :: rest) := by
      rw [htext, lines, List.flatMap_nil, List.nil_append, skip_indent, skip_closing hclosing]
    simp [Reader.membersFrom, hend]
  | @cons item a items values hitem h ih =>
    obtain ⟨count, rfl⟩ := Nat.exists_eq_add_of_le' (Nat.one_le_of_lt hcount)
    rw [lines_cons, skip_indent, hitem.starts.skip_append] at htext
    obtain ⟨next, hnext, hself⟩ := exists_skip_lines hclosing h level rest
    have hread := hitem.reads hdepth (hitems item (.head _))
      (rfl : Delimits (',' :: '\n' :: lines level items (closing :: rest)))
    have hcomma : comma? (',' :: '\n' :: lines level items (closing :: rest)) =
        some (true, next) := by
      simp [comma?, skip_self, isBlank, skip_blank, hnext]
    have hmore := ih (fun item hitem => hitems item (.tail _ hitem))
      (Nat.lt_of_succ_lt_succ hcount) (hself.trans hnext.symm)
    obtain ⟨c, more, rfl, -, hmark⟩ := hitem.starts
    have hopen : c ≠ closing := by
      rintro rfl
      exact hmark (.tail _ (.tail _ hclosing))
    rw [List.cons_append] at htext hread
    simp only [Reader.membersFrom, htext, Option.bind_eq_bind, Option.bind_some, hopen, if_false,
      if_true, hread, hcomma, hmore]
    rfl

theorem reads_sequence (hopening : opening ∈ ['(', '[', '\x7b'])
    (hclosing : closing ∈ [')', ']', '\x7d'])
    (h : List.Forall₂ (Reads member levels) items values) (level : Nat)
    (hlines : ∀ rest, ∃ text, chars ++ rest = opening :: text ∧
      skip text = skip (lines level items (closing :: rest)))
    (hlength : items.length < chars.length) (hitems : ∀ item ∈ items, item.length ≤ chars.length) :
    Reads (Reader.sequence opening closing member) (levels + 1) chars values := by
  refine ⟨?_, fun {rules rest} hdepth hmembers _ => ?_⟩
  · obtain ⟨text, htext, -⟩ := hlines []
    rw [List.append_nil] at htext
    refine ⟨opening, text, htext, ?_⟩
    simp only [List.mem_cons, List.not_mem_nil, or_false] at hopening
    obtain rfl | rfl | rfl := hopening <;> decide
  · obtain ⟨text, htext, hskip⟩ := hlines rest
    rw [htext]
    simp only [Reader.sequence, if_true]
    obtain ⟨inner, hle, hsame, heq⟩ := deeper_eq hdepth
      (fun rules => Reader.membersFrom closing (member rules) rules.members true) text
    rw [heq]
    rw [← hsame] at hmembers
    exact membersFrom_lines hclosing hle (fun item hitem => Nat.le_trans (hitems item hitem) hmembers)
      h (Nat.lt_of_lt_of_le hlength hmembers) hskip

theorem reads_block (hopening : opening ∈ ['(', '[', '\x7b']) (hclosing : closing ∈ [')', ']', '\x7d'])
    (h : List.Forall₂ (Reads member levels) items values) (level : Nat) :
    Reads (Reader.sequence opening closing member) (levels + 1)
      (block opening closing level items) values :=
  reads_sequence hopening hclosing h level
    (fun rest => ⟨_, block_append opening closing level items rest, skip_blank rfl _⟩)
    (length_lt_length_block opening closing level items) fun _ hitem => length_le_length_block hitem

theorem reads_blockOrEmpty (hopening : opening ∈ ['(', '[', '\x7b'])
    (hclosing : closing ∈ [')', ']', '\x7d'])
    (h : List.Forall₂ (Reads member levels) items values) (level : Nat) :
    Reads (Reader.sequence opening closing member) (levels + 1)
      (blockOrEmpty opening closing level items) values := by
  cases items with
  | cons item items => exact reads_block hopening hclosing h level
  | nil =>
    have hlines (rest : List Char) : skip (closing :: rest) = skip (lines level [] (closing :: rest)) :=
      (skip_indent level _).symm
    exact reads_sequence hopening hclosing h level (fun rest => ⟨closing :: rest, rfl, hlines rest⟩)
      (Nat.zero_lt_succ _) fun _ hitem => nomatch hitem

theorem reads_list {items : List Ron} (level : Nat)
    (h : List.Forall₂ (Reads member levels) (writeItems (level + 1) items) values) :
    Reads (Reader.list member) (levels + 2) (write level (.list items)) values :=
  reads_blockOrEmpty (by decide) (by decide) (h.imp fun _ _ hitem => hitem.deeper) level

end

theorem reads_labelled {label : Reader κ} {value : κ → Reader α} {k : κ} {key : List Char}
    (hkey : Reads label (levels + 1) key k) (h : Reads (value k) levels chars a) :
    Reads (Reader.labelled label value) (levels + 1) (key ++ ':' :: ' ' :: chars) (k, a) := by
  refine ⟨?_, fun {rules rest} hdepth hmembers hrest => ?_⟩
  · obtain ⟨c, more, rfl, hc⟩ := hkey.starts
    exact ⟨c, _, rfl, hc⟩
  · simp only [List.length_append, List.length_cons] at hmembers
    have hlabel := hkey.reads hdepth (by omega)
      (rfl : Delimits (':' :: ' ' :: (chars ++ rest)))
    obtain ⟨inner, hle, hsame, heq⟩ := deeper_eq hdepth (value k) (chars ++ rest)
    have hvalue := h.reads hle (by omega) hrest
    have hcolon : skip (':' :: ' ' :: (chars ++ rest)) = some (':' :: ' ' :: (chars ++ rest)) :=
      skip_self rfl (by decide) _
    have hblank : skip (' ' :: (chars ++ rest)) = some (chars ++ rest) := by
      rw [skip_blank rfl, h.starts.skip_append]
    rw [List.append_assoc, List.cons_append, List.cons_append]
    simp only [Reader.labelled, hlabel, hcolon, hblank, heq, hvalue, Option.bind_eq_bind,
      Option.bind_some]
    rfl

theorem reads_entries {key : Reader κ} {value : Reader α} {entries : List (Ron × Ron)}
    {found : List (κ × α)} (level : Nat)
    (h : List.Forall₂ (Reads (Reader.labelled (Reader.deeper key) fun _ => value) levels)
      (writeEntries (level + 1) entries) found) :
    Reads (Reader.entries key value) (levels + 1) (write level (.map entries)) found :=
  reads_blockOrEmpty (by decide) (by decide) h level

/-! ## Records -/

/-- Fields with values that are read into a record, in the order in which the record knows them. -/
inductive ReadsFields (levels level : Nat) :
    List (Reader.Field α) → List (String × Ron) → List (α → α) → Prop where
  | nil : ReadsFields levels level [] [] []
  | cons {field known tree fields put puts} :
      Reads field.value levels (write level tree) put → isPlainName field.name →
      ReadsFields levels level known fields puts →
      ReadsFields levels level (field :: known) ((field.name, tree) :: fields) (put :: puts)

/-- How a record reads a field by its name. -/
def fieldValue (known : List (Reader.Field α)) (name : String) : Reader (α → α) :=
  match known.find? fun field => field.name == name with
  | some field => field.value
  | none => Reader.map (fun _ => id) Reader.unknown

theorem fieldValue_of_mem {known : List (Reader.Field α)} (hnodup : (known.map (·.name)).Nodup)
    {field : Reader.Field α} (h : field ∈ known) : fieldValue known field.name = field.value := by
  have hfind : known.find? (fun f => f.name == field.name) = some field := by
    induction known with
    | nil => cases h
    | cons first known ih =>
      obtain ⟨hfirst, hrest⟩ := List.nodup_cons.mp hnodup
      rw [List.find?_cons]
      rcases List.mem_cons.mp h with rfl | h
      · simp
      · have hne : (first.name == field.name) = false :=
          beq_false_of_ne fun heq => hfirst (List.mem_map.mpr ⟨field, h, heq.symm⟩)
        rw [hne, ih hrest h]
  rw [fieldValue, hfind]

variable {known part : List (Reader.Field α)} {fields : List (String × Ron)} {puts : List (α → α)}
  {more level : Nat}

theorem ReadsFields.required {name : String} {value : Reader β} {put : β → α → α} {tree : Ron}
    {b : β} (h : Reads value levels (write level tree) b) (hname : isPlainName name)
    (hle : levels ≤ more) (hfields : ReadsFields more level known fields puts) :
    ReadsFields more level (.required name value put :: known) ((name, tree) :: fields)
      (put b :: puts) :=
  .cons ((h.map put).mono hle) hname hfields

theorem ReadsFields.optional {name : String} {value : Reader β} {put : β → α → α} {tree : Ron}
    {b : β} (h : Reads value levels (write level tree) b) (hname : isPlainName name)
    (hle : levels ≤ more) (hfields : ReadsFields more level known fields puts) :
    ReadsFields more level (.optional name value put :: known) ((name, tree) :: fields)
      (put b :: puts) :=
  .cons ((h.map put).mono hle) hname hfields

theorem ReadsFields.forall₂ (h : ReadsFields levels level part fields puts)
    (hvalue : ∀ field ∈ part, fieldValue known field.name = field.value) :
    List.Forall₂ (Reads (Reader.labelled (fun _ => name?) (fieldValue known)) (levels + 1))
      (writeFields level fields) ((part.map (·.name)).zip puts) := by
  induction h with
  | nil => exact .nil
  | cons hfield hname h ih =>
    rw [← hvalue _ (.head _)] at hfield
    refine .cons (reads_labelled ((reads_name hname).mono (Nat.zero_le _)) hfield) ?_
    exact ih fun field hmem => hvalue field (.tail _ hmem)

theorem ReadsFields.length_eq (h : ReadsFields levels level part fields puts) :
    puts.length = part.length := by
  induction h with
  | nil => rfl
  | cons _ _ _ ih => rw [List.length_cons, List.length_cons, ih]

theorem areComplete_names (hnodup : (known.map (·.name)).Nodup) :
    Reader.areComplete known (known.map (·.name)) := by
  rw [Reader.areComplete, List.all_eq_true]
  intro field hmem
  have hcount : (known.map (·.name)).count field.name = 1 :=
    List.count_eq_one_of_mem hnodup (List.mem_map_of_mem hmem)
  simp [hcount]

theorem fields_eq (known : List (Reader.Field α)) (start : α) (rules : Rules) (text : List Char) :
    Reader.fields known start rules text =
      (Reader.namedFields (fieldValue known) rules text).bind fun (found, rest) =>
        if Reader.areComplete known (found.map Prod.fst) then
          some (found.foldl (fun record (_, put) => put record) start, rest)
        else none :=
  rfl

theorem reads_record {type : String} {start : α} (hnodup : (known.map (·.name)).Nodup)
    (h : ReadsFields levels (level + 1) known fields puts)
    (ha : puts.foldl (fun record put => put record) start = a) :
    Reads (Reader.record type known start) (levels + 2) (write level (.record fields)) a := by
  have hfields := h.forall₂ fun field hmem => fieldValue_of_mem hnodup hmem
  have hblock := reads_block (by decide : '(' ∈ ['(', '[', '\x7b'])
    (by decide : ')' ∈ [')', ']', '\x7d']) hfields level
  refine ⟨hblock.starts, fun {rules rest} hdepth hmembers hrest => ?_⟩
  have hread := hblock.reads hdepth hmembers hrest
  have hlength : (known.map (·.name)).length = puts.length := by
    rw [List.length_map, h.length_eq]
  have hnames : ((known.map (·.name)).zip puts).map Prod.fst = known.map (·.name) :=
    List.map_fst_zip (Nat.le_of_eq hlength)
  have hputs : ((known.map (·.name)).zip puts).map Prod.snd = puts :=
    List.map_snd_zip (Nat.le_of_eq hlength.symm)
  have hhead : (write level (.record fields) ++ rest).head?.any isNameChar = false := rfl
  rw [Reader.record, hhead, if_neg Bool.false_ne_true, fields_eq, write, Reader.namedFields, hread]
  have hfold : ((known.map (·.name)).zip puts).foldl (fun record (_, put) => put record) start = a := by
    rw [← ha, ← congrArg (List.foldl (fun record put => put record) start) hputs, List.foldl_map]
  simp only [Option.bind_some, hnames, areComplete_names hnodup, if_true, hfold]

/-- What is read from a written tree is read from its file. -/
theorem readFile?_writeFile {tree : Ron} (h : Reads value levels (write 0 tree) a)
    (hlevels : levels ≤ maxDepth) : readFile? value (writeFile tree) = some a := by
  have htext : skip (writeFile tree).toList = some (write 0 tree) := by
    rw [writeFile, String.toList_ofList]
    simpa using h.starts.skip_append []
  obtain ⟨c, rest, hchars, -, hmark⟩ := h.starts
  have hc : c ≠ '#' := by
    rintro rfl
    exact hmark (.tail _ (.head _))
  have hattributes : attributes? ((write 0 tree).length + 1) (write 0 tree) =
      some ([], write 0 tree) := by
    rw [hchars, attributes?]
    exact fun _ _ _ heq => hc (List.cons.inj heq).1
  have hread : value ⟨false, maxDepth, (write 0 tree).length + 1⟩ (write 0 tree ++ []) =
      some (a, []) :=
    h.reads hlevels (Nat.le_succ _) rfl
  rw [List.append_nil] at hread
  simp only [readFile?, htext, hattributes, Option.bind_eq_bind, Option.bind_some,
    List.contains_nil, hread]
  rfl

end QualityScript.Ron
