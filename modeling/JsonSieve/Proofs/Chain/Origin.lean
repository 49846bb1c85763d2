/-
Chains invent no data. What filters pass is a pruning, and a copy puts a part of the value at a
destination that it may have to grow; so every scalar that a chain emits was in the record, and every key
was, or is a field of a destination. The induction along the chain is done once, for any test of parts
that such changes keep (`Lasting`): where the parts come from is one of them, that no key stands twice
another.
-/
import JsonSieve.Proofs.Chain.Compose
import JsonSieve.Proofs.Filter.Pruning
import JsonSieve.Proofs.Json.Decoded
import JsonSieve.Proofs.Transform.AtPath
import JsonSieve.Proofs.Transform.Operands
import JsonSieve.Proofs.Value.Equality
import JsonSieve.Proofs.Value.Within

namespace JsonSieve

open Value (Everywhere Lasting Within)

/-! ## Destinations -/

/-- The path at which a transform sets, in the parts that it comes to. -/
def Transform.destination : Transform → Path
  | .everyItem rest | .everyField rest | .item _ rest | .field _ rest => rest.destination
  | .copy dest _ => dest
  | .refuse _ => []

/-- A field of a path is written in the text that the path was read from. -/
theorem Path.infix_of_mem_steps {name : String} {s : Text} (h : .key name ∈ (Path.steps s).1) :
    '.' :: name.toList <:+: s := by
  fun_induction Path.steps s with
  | case1 => cases h
  | case2 s step rest hstep path rest' hsteps ih =>
    rw [Path.step?] at hstep
    have suffix (hs : rest <:+ s) (hmem : .key name ∈ path) : '.' :: name.toList <:+: s := by
      rw [hsteps] at ih
      exact (ih hmem).trans hs.isInfix
    split at hstep
    · rename_i i r hi
      cases hstep
      rcases List.mem_cons.1 h with h | h
      · cases h
      · exact suffix (suffix_of_exactIndex? hi) h
    · obtain ⟨⟨field, r⟩, hfield, heq⟩ := Option.map_eq_some_iff.1 hstep
      cases heq
      rcases List.mem_cons.1 h with h | h
      · cases h
        unfold exactField? at hfield
        split at hfield
        · cases hfield
          rw [String.toList_ofList]
          exact ((List.cons_prefix_cons.2 ⟨rfl, List.takeWhile_prefix _⟩)).isInfix
        · cases hfield
      · exact suffix (suffix_of_exactField? hfield) h

namespace Transform

theorem infix_of_assignment {d dest src : Text} (h : Form.of d = .assignment dest src) : dest <:+: d := by
  have hfits := Form.fits_of d
  rw [h] at hfits
  obtain ⟨-, -, rfl⟩ := assignment?_eq_some_iff.1 hfits
  exact ⟨['{'], '=' :: (src ++ ['}']), by simp⟩

theorem infix_of_ofSides {name : String} {dest src : Text} (h : .key name ∈ (ofSides dest src).destination) :
    '.' :: name.toList <:+: dest := by
  have parsed {path : Path} (hparse : Path.parse dest = .ok path) : (Path.steps dest).1 = path := by
    unfold Path.parse at hparse
    dsimp only at hparse
    split at hparse
    · cases hparse; rfl
    · cases hparse
  unfold ofSides at h
  split at h
  · rename_i hdest _
    exact Path.infix_of_mem_steps (parsed hdest ▸ h)
  · cases h
  · cases h

/-- A field of the destination is written in the directive. -/
theorem infix_of_mem_destination {name : String} (d : Text) (h : .key name ∈ (parse d).destination) :
    '.' :: name.toList <:+: d := by
  have within {d rest : Text} (hr : (Form.of d).rest? = some rest) (ih : '.' :: name.toList <:+: rest) :
      '.' :: name.toList <:+: d :=
    ih.trans (Form.suffix_of_rest? hr).isInfix
  fun_induction parse d with
  | case1 => cases h
  | case2 d rest hform ih => exact within (by rw [hform]; rfl) (ih h)
  | case3 d rest hform ih => exact within (by rw [hform]; rfl) (ih h)
  | case4 d i rest hform ih => exact within (by rw [hform]; rfl) (ih h)
  | case5 d field rest hform ih => exact within (by rw [hform]; rfl) (ih h)
  | case6 d dest src hform => exact (infix_of_ofSides h).trans (infix_of_assignment hform)
  | case7 => cases h

/-! ## Transforms -/

variable {grants : Reservation} {test : Value → Prop} {allowed : String → Prop}

theorem everywhere_changeItems {change : Value → Attempt} {items : List Value}
    (hchange : ∀ x : Value, x.Everywhere test → (change x).after.Everywhere test)
    (h : ∀ x ∈ items, x.Everywhere test) : ∀ y ∈ (changeItems change items).1, y.Everywhere test := by
  fun_induction changeItems change items with
  | case1 => exact h
  | case2 x xs attempt e he =>
    intro y hy
    rcases List.mem_cons.1 hy with rfl | hy
    · exact hchange x (h x List.mem_cons_self)
    · exact h y (List.mem_cons_of_mem _ hy)
  | case3 x xs attempt he ys e hys ih =>
    rw [hys] at ih
    intro y hy
    rcases List.mem_cons.1 hy with rfl | hy
    · exact hchange x (h x List.mem_cons_self)
    · exact ih (fun z hz => h z (List.mem_cons_of_mem _ hz)) y hy

theorem keys_changeEntries (change : Value → Attempt) (entries : List (String × Value)) :
    Entries.keys (changeEntries change entries).1 = Entries.keys entries := by
  fun_induction changeEntries change entries with
  | case1 => rfl
  | case2 => rfl
  | case3 key x rest attempt he ys e hys ih =>
    rw [hys] at ih
    exact congrArg (key :: ·) ih

theorem contents_changeEntries (change : Value → Attempt) (entries : List (String × Value)) :
    (changeEntries change entries).1.map (·.2) = (changeItems change (entries.map (·.2))).1 := by
  induction entries with
  | nil => rfl
  | cons entry rest ih =>
    obtain ⟨key, x⟩ := entry
    simp only [changeEntries, changeItems, List.map_cons]
    cases (change x).fatal? with
    | none => simp only [List.map_cons, ih]
    | some e => rfl

/-- What a transform leaves behind holds only what was there and the fields of its destination. The
induction is on the transform. -/
theorem everywhere_apply (ht : Lasting test allowed) (t : Transform)
    (hdest : ∀ name, .key name ∈ t.destination → allowed name) {v : Value} (hv : v.Everywhere test) :
    (t.apply grants v).after.Everywhere test := by
  induction t generalizing v with
  | everyItem rest ih =>
    cases v with
    | list items =>
      have hitems := (Value.everywhere_list.1 hv).2
      exact Value.everywhere_list.2
        ⟨ht.list _, everywhere_changeItems (fun x hx => ih hdest hx) hitems⟩
    | _ => exact hv
  | everyField rest ih =>
    cases v with
    | map entries =>
      obtain ⟨hself, hcontents⟩ := Value.everywhere_map.1 hv
      refine Value.everywhere_map.2 ⟨ht.fewer (by rw [keys_changeEntries]) hself, fun e he => ?_⟩
      have hmem : e.2 ∈ (changeItems (rest.apply grants) (entries.map (·.2))).1 :=
        contents_changeEntries (rest.apply grants) entries ▸ List.mem_map_of_mem he
      -- the contents change as the items of a list do
      refine everywhere_changeItems (fun x hx => ih hdest hx) (fun x hx => ?_) e.2 hmem
      obtain ⟨e', he', rfl⟩ := List.mem_map.1 hx
      exact hcontents e' he'
    | _ => exact hv
  | item i rest ih =>
    cases v with
    | list items =>
      rw [apply]
      split
      · rename_i x hx
        have hpart := (Value.everywhere_list.1 hv).2 x (List.mem_of_getElem? hx)
        exact hv.setItem ht i.toNat (ih hdest hpart)
      · exact hv
    | _ => exact hv
  | field name rest ih =>
    cases v with
    | map entries =>
      rw [apply]
      split
      · exact ih hdest hv
      · split
        · rename_i x hx
          have hpart := (Value.everywhere_map.1 hv).2 _ (Entries.mem_of_get? hx)
          exact hv.putEntry ht hx (ih hdest hpart)
        · exact hv
    | _ => exact hv
  | copy dest src =>
    rw [apply, copyWithin]
    split
    · rename_i w hw
      exact .setWithin ht hdest (fun x hx => hv x (hx.trans (.of_get hw))) hv
    · exact hv
  | refuse e => exact hv

end Transform

/-! ## Chains -/

namespace Chain

variable {grants : Reservation} {test : Value → Prop} {allowed : String → Prop} {directives : List Directive} 
  {v w : Value} {output : Option Output} {cache cache' : PatternCache}

/-- The fields of the destinations in a chain. -/
def Writes (directives : List Directive) (name : String) : Prop :=
  ∃ text, .transform text ∈ directives ∧ .key name ∈ (Transform.parse text.toList).destination

theorem everywhere_of_apply (ht : Lasting test allowed) {directive : Directive}
    (hwrites : ∀ name, Writes [directive] name → allowed name) (hv : v.Everywhere test)
    (h : (directive.apply grants v).run cache = (.ok w, cache')) : w.Everywhere test := by
  cases directive with
  | filter text =>
    have hprunes : Value.PrunesTo false v w := Filter.prunesTo_of_apply _ _ (by simp) h
    exact hv.of_prunesTo ht hprunes
  | transform text =>
    have hresult : (v.transform grants text.toList).result = .ok w := congrArg Prod.fst h
    obtain ⟨-, rfl⟩ := Attempt.result_eq_ok.1 hresult
    refine Transform.everywhere_apply ht _ (fun name hname => ?_) hv
    exact hwrites name ⟨text, List.mem_singleton_self _, hname⟩
  | output form => cases h; exact hv

/-- A test that changes keep holds of what a chain emits if it holds of the record. -/
theorem everywhere_of_run (ht : Lasting test allowed) (hwrites : ∀ name, Writes directives name → allowed name)
    (hv : v.Everywhere test) (h : (run grants directives v).run cache = (.ok (some ⟨w, output⟩), cache')) :
    w.Everywhere test := by
  induction directives generalizing v cache with
  | nil => cases h; exact hv
  | cons directive rest ih =>
    -- each directive writes no more than the chain does
    have hfirst : ∀ name, Writes [directive] name → allowed name := by
      rintro name ⟨text, hmem, hname⟩
      rw [List.mem_singleton] at hmem
      exact hwrites name ⟨text, hmem ▸ List.mem_cons_self, hname⟩
    have hrest : ∀ name, Writes rest name → allowed name := by
      rintro name ⟨text, hmem, hname⟩
      exact hwrites name ⟨text, List.mem_cons_of_mem _ hmem, hname⟩
    obtain ⟨form, rfl⟩ | ⟨x, cache'', -, hstep, hrun⟩ | ⟨cache'', hrun⟩ | ⟨e, cache'', -, -, hrun⟩ :=
      run_cons_cases grants directive v cache
    · cases h; exact hv
    · rw [hrun] at h
      exact ih hrest (everywhere_of_apply ht hfirst hv hstep) h
    · rw [hrun] at h; cases h
    · rw [hrun] at h; cases h

/-- A part is null, a container, or a part of the record, and its keys are keys of the record or allowed
otherwise. -/
def Known (v : Value) (allowed : String → Prop) (x : Value) : Prop :=
  (x = .null ∨ x.isContainer = true ∨ Within x v) ∧
    ∀ entries, x = .map entries → ∀ key ∈ Entries.keys entries, v.HasKey key ∨ allowed key

theorem lasting_known (v : Value) (allowed : String → Prop) : Lasting (Known v allowed) allowed where
  null := ⟨.inl rfl, by simp⟩
  list items := ⟨.inr (.inl rfl), by simp⟩
  empty := ⟨.inr (.inl rfl), by rintro _ ⟨⟩ key hkey; cases hkey⟩
  fewer hkeys hmap := ⟨.inr (.inl rfl), by rintro _ ⟨⟩ key hkey; exact hmap.2 _ rfl key (hkeys.subset hkey)⟩
  more hnew _ hmap := by
    refine ⟨.inr (.inl rfl), ?_⟩
    rintro _ ⟨⟩ key hkey
    rw [Entries.keys, List.map_append, List.mem_append] at hkey
    rcases hkey with hkey | hkey
    · exact hmap.2 _ rfl key hkey
    · rw [List.mem_singleton.1 hkey]
      exact .inr hnew

theorem known_self (v : Value) (allowed : String → Prop) : v.Everywhere (Known v allowed) := by
  intro x hx
  refine ⟨.inr (.inr hx), ?_⟩
  rintro entries rfl key hkey
  exact .inl ⟨entries, hx, hkey⟩

theorem lasting_nodup : Lasting (fun x => ∀ entries, x = .map entries → (Entries.keys entries).Nodup)
    fun _ => True where
  null := by simp
  list items := by simp
  empty := by rintro _ ⟨⟩; exact List.nodup_nil
  fewer hkeys hmap := by rintro _ ⟨⟩; exact (hmap _ rfl).sublist hkeys
  more _ hnew hmap := by
    rintro _ ⟨⟩
    rw [Entries.keys, List.map_append, List.nodup_append]
    refine ⟨hmap _ rfl, List.nodup_singleton _, ?_⟩
    rintro key hkey other hother rfl
    rw [List.mem_singleton.1 hother] at hkey
    exact hnew hkey

theorem keysOnce_of_run (h : (run grants directives v).run cache = (.ok (some ⟨w, output⟩), cache'))
    (hv : v.keysOnce = true) : w.keysOnce = true := by
  rw [Value.keysOnce_iff] at hv ⊢
  have hw := everywhere_of_run lasting_nodup (fun _ _ => trivial) (fun x hx entries hmap => ?_) h
  · exact fun entries hwithin => hw _ hwithin entries rfl
  · exact hv entries (hmap ▸ hx)

theorem floatsFinite_of_run (h : (run grants directives v).run cache = (.ok (some ⟨w, output⟩), cache'))
    (hv : v.floatsFinite = true) : w.floatsFinite = true := by
  have hw := everywhere_of_run (lasting_known v (Writes directives)) (fun _ hname => hname)
    (known_self v _) h
  rw [Value.floatsFinite_iff] at hv ⊢
  intro x hx
  rcases (hw _ hx).1 with hnull | hcontainer | hwithin
  · cases hnull
  · cases hcontainer
  · exact hv x hwithin

theorem text_ne_null {x : Double} (h : x.isFinite = true) (layout : Layout) (level : Nat) :
    (Value.float x).write layout level ≠ "null".toList := by
  rw [Value.write, if_pos h, ← Double.numeral_text]
  obtain ⟨c, s, htext, hc⟩ := Json.head_text (Double.numeral_wellFormed h)
  rw [htext]
  intro heq
  obtain rfl : c = 'n' := (List.cons.inj heq).1
  rcases hc with hc | hc
  · cases hc
  · cases hc

/-- A chain invents no data: what occurs in the value it emits is null, a container or a part of the
record, and a key is one of the record or is written in a destination. So the floats of decoded records
stay finite and no float is printed as null. -/
theorem run_invents_nothing
    (h : (run grants directives v).run cache = (.ok (some ⟨w, output⟩), cache')) :
    (∀ x, Within x w → x = .null ∨ x.isContainer = true ∨ Within x v) ∧
    (∀ key, w.HasKey key → v.HasKey key ∨ ∃ text, .transform text ∈ directives ∧
      .key key ∈ (Transform.parse text.toList).destination ∧ '.' :: key.toList <:+: text.toList) ∧
    (v.floatsFinite = true → w.floatsFinite = true ∧
      (∀ x, Within (.float x) w → ∀ layout level, (Value.float x).write layout level ≠ "null".toList) ∧
      (v.keysOnce = true → w.keysOnce = true ∧ (w == w) = true)) ∧
    ∀ rounding input, ∀ json ∈ (Json.readAll rounding input).1,
      (Value.ofJson json).floatsFinite = true ∧ (Value.ofJson json).keysOnce = true := by
  have hw := everywhere_of_run (lasting_known v (Writes directives)) (fun _ hname => hname)
    (known_self v _) h
  refine ⟨fun x hx => (hw x hx).1, ?_, fun hfloats => ?_, fun rounding input json hjson => ?_⟩
  · rintro key ⟨entries, hwithin, hkey⟩
    refine ((hw _ hwithin).2 entries rfl key hkey).imp_right ?_
    rintro ⟨text, hmem, hname⟩
    exact ⟨text, hmem, hname, Transform.infix_of_mem_destination _ hname⟩
  · have hfinite := floatsFinite_of_run h hfloats
    refine ⟨hfinite, fun x hx layout level => ?_, fun hkeys => ?_⟩
    · exact text_ne_null (Value.floatsFinite_iff.1 hfinite x hx) layout level
    · have honce := keysOnce_of_run h hkeys
      exact ⟨honce, Value.same_self honce hfinite⟩
  · exact (Json.decodes_of_readAll hjson).symm

/-- A float that is copied to a destination that has to grow, after an entry has been cut. -/
theorem run_invents_nothing_grown :
    let v : Value := .map [("a", .list [.float ⟨0x3FF8000000000000⟩, .string "x"]), ("d", .null)]
    let w : Value := .map [("a", .list [.float ⟨0x3FF8000000000000⟩, .string "x"]),
      ("b", .map [("c", .list [.null, .float ⟨0x3FF8000000000000⟩])])]
    let directives : List Directive := [.filter "@a", .transform "{.b.c[1]=.a[0]}"]
    (run .standard directives v).run .empty = (.ok (some ⟨w, none⟩), .empty) ∧ w.floatsFinite = true ∧
      (w == w) = true ∧ (∀ x, Within x w → x = .null ∨ x.isContainer = true ∨ Within x v) ∧
      (v.HasKey "c" ∨ ∃ text, .transform text ∈ directives ∧
        .key "c" ∈ (Transform.parse text.toList).destination ∧ '.' :: "c".toList <:+: text.toList) := by
  intro v w directives
  have hcut : ((Directive.filter "@a").apply .standard v).run .empty =
      (.ok (.map [("a", .list [.float ⟨0x3FF8000000000000⟩, .string "x"])]), .empty) := by decide +kernel
  have hpasses : Passes .standard directives v .empty w .empty :=
    .cons (by simp) hcut (.cons (by simp) (by decide +kernel) .nil)
  have hrun := hpasses.run_eq
  obtain ⟨hparts, hkeys, hfinite, -⟩ := run_invents_nothing hrun
  obtain ⟨hfloats, -, hself⟩ := hfinite (by decide)
  have hc : w.HasKey "c" := by
    refine ⟨[("c", .list [.null, .float ⟨0x3FF8000000000000⟩])], ?_, by decide⟩
    exact .content (List.mem_cons_of_mem _ List.mem_cons_self) .self
  exact ⟨hrun, hfloats, (hself (by decide)).2, hparts, hkeys "c" hc⟩

end Chain

end JsonSieve
