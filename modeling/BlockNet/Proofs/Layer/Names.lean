import BlockNet.Proofs.Layer.Attention

/-! # The names of weights

A weight goes by the id of its layer and its own name, with a dot in between. Ids may have dots and
names have none, so the layer can be told from where the last dot stands. The weights of one layer
have different names. -/

namespace BlockNet

/-- The names that weights have. -/
def Weight.names : List String :=
  ["kernel", "bias", "gamma", "beta", "w_ih", "w_hh", "w_q", "b_q", "w_k", "b_k", "w_v", "b_v", "w_o",
    "b_o"]

theorem Weight.names_undotted : ∀ name ∈ names, '.' ∉ name.toList := by decide

/-- What stands before the last dot of a text. -/
theorem undotted_inj {a b s t : String} (hs : '.' ∉ s.toList) (ht : '.' ∉ t.toList)
    (h : a ++ "." ++ s = b ++ "." ++ t) : a = b := by
  have hlist : a.toList ++ '.' :: s.toList = b.toList ++ '.' :: t.toList := by
    simpa using congrArg String.toList h
  rcases List.append_eq_append_iff.mp hlist with ⟨c, hc, hrest⟩ | ⟨c, hc, hrest⟩
  · cases c with
    | nil =>
        rw [List.append_nil] at hc
        exact String.toList_inj.mp hc.symm
    | cons x c =>
        rw [(List.cons.inj hrest).2] at hs
        exact absurd (List.mem_append_right c List.mem_cons_self) hs
  · cases c with
    | nil =>
        rw [List.append_nil] at hc
        exact String.toList_inj.mp hc
    | cons x c =>
        rw [(List.cons.inj hrest).2] at ht
        exact absurd (List.mem_append_right c List.mem_cons_self) ht

/-- A key tells the layer and the weight, whatever the id of the layer looks like. -/
theorem Layer.weightKey_inj {α : Type} {K L : Layer α} {w v : Weight α} (hw : w.name ∈ Weight.names)
    (hv : v.name ∈ Weight.names) (h : K.weightKey w = L.weightKey v) :
    K.id = L.id ∧ w.name = v.name := by
  have hid : K.id = L.id :=
    undotted_inj (Weight.names_undotted _ hw) (Weight.names_undotted _ hv) h
  rw [Layer.weightKey, Layer.weightKey, hid] at h
  exact ⟨hid, (String.append_right_inj _).mp h⟩

/-- Weights under names that weights have. -/
def Weight.Named {α : Type} (ws : List (Weight α)) : Prop := ∀ w ∈ ws, w.name ∈ names

/-- The names that the weights of one layer can have, in their order. -/
def Weight.nameLists : List (List String) :=
  [[], ["kernel"], ["kernel", "bias"], ["w_ih", "w_hh", "bias"], ["gamma", "beta"],
    ["w_q", "b_q", "w_k", "b_k", "w_v", "b_v", "w_o", "b_o"]]

/-- Weights under the names that the weights of one layer can have. -/
def Weight.Listed {α : Type} (ws : List (Weight α)) : Prop := ws.map Weight.name ∈ nameLists

theorem Weight.Listed.named {α : Type} {ws : List (Weight α)} (h : Listed ws) : Named ws := by
  have hall : ∀ list ∈ nameLists, ∀ name ∈ list, name ∈ names := by decide
  exact fun w hw => hall _ h w.name (List.mem_map_of_mem hw)

theorem Weight.Listed.nodup {α : Type} {ws : List (Weight α)} (h : Listed ws) :
    (ws.map Weight.name).Nodup := by
  have hall : ∀ list ∈ nameLists, list.Nodup := by decide
  exact hall _ h

variable {α : Type} [Scalar α]

theorem biasWeight_names {params : Entries} {size : Int} {ws : List (Weight α)}
    (h : biasWeight params size = .ok ws) :
    ws.map Weight.name = [] ∨ ws.map Weight.name = ["bias"] := by
  rw [biasWeight] at h
  split at h
  · obtain ⟨b, hb, h⟩ := bind_eq_ok.mp h
    obtain rfl := Except.ok.inj h
    exact .inr (congrArg (fun name => [name]) (constantWeight_eq_ok hb).1)
  · obtain rfl := Except.ok.inj h
    exact .inl rfl

/-- A kernel with or without a bias. -/
theorem Weight.listed_kernel {kernel : Weight α} {bias : List (Weight α)} {params : Entries}
    {size : Int} (hkernel : kernel.name = "kernel") (hbias : biasWeight params size = .ok bias) :
    Listed (kernel :: bias) := by
  rw [Listed, List.map_cons, hkernel]
  rcases biasWeight_names hbias with h | h
  · rw [h]
    decide
  · rw [h]
    decide

/-! ## Kernel by kernel -/

variable {params : Entries} {shapes : List TensorShape} {ws : List (Weight α)} {g g' : Generator}

theorem Dense.build_listed (h : (build params shapes).run g = (.ok ws, g')) : Weight.Listed ws := by
  rw [build] at h
  obtain ⟨shape, _, -, h⟩ := run_bind_eq_ok.mp h
  obtain ⟨features, _, -, h⟩ := run_bind_eq_ok.mp h
  obtain ⟨units, _, -, h⟩ := run_bind_eq_ok.mp h
  obtain ⟨kernel, _, hkernel, h⟩ := run_bind_eq_ok.mp h
  obtain ⟨bias, _, hbias, h⟩ := run_bind_eq_ok.mp h
  obtain ⟨rfl, -⟩ := run_pure_eq_ok.mp h
  exact Weight.listed_kernel (drawnWeight_eq_ok hkernel).1 (run_lift_eq_ok.mp hbias).1

theorem Convolution.build_listed (h : (build params shapes).run g = (.ok ws, g')) :
    Weight.Listed ws := by
  rw [build] at h
  obtain ⟨shape, _, -, h⟩ := run_bind_eq_ok.mp h
  obtain ⟨image, _, -, h⟩ := run_bind_eq_ok.mp h
  obtain ⟨size, _, -, h⟩ := run_bind_eq_ok.mp h
  obtain ⟨filters, _, -, h⟩ := run_bind_eq_ok.mp h
  obtain ⟨kernel, _, hkernel, h⟩ := run_bind_eq_ok.mp h
  obtain ⟨bias, _, hbias, h⟩ := run_bind_eq_ok.mp h
  obtain ⟨rfl, -⟩ := run_pure_eq_ok.mp h
  exact Weight.listed_kernel (drawnWeight_eq_ok hkernel).1 (run_lift_eq_ok.mp hbias).1

theorem Recurrent.build_listed (h : (build params shapes).run g = (.ok ws, g')) :
    Weight.Listed ws := by
  rw [build] at h
  obtain ⟨shape, _, -, h⟩ := run_bind_eq_ok.mp h
  obtain ⟨sequence, _, -, h⟩ := run_bind_eq_ok.mp h
  obtain ⟨units, _, -, h⟩ := run_bind_eq_ok.mp h
  obtain ⟨fromInput, _, hinput, h⟩ := run_bind_eq_ok.mp h
  obtain ⟨fromHidden, _, hhidden, h⟩ := run_bind_eq_ok.mp h
  obtain ⟨bias, _, hbias, h⟩ := run_bind_eq_ok.mp h
  obtain ⟨rfl, -⟩ := run_pure_eq_ok.mp h
  simp only [Weight.Listed, List.map_cons, List.map_nil, (drawnWeight_eq_ok hinput).1,
    (drawnWeight_eq_ok hhidden).1, (constantWeight_eq_ok (run_lift_eq_ok.mp hbias).1).1]
  decide

theorem Normalization.build_listed {kind : String} (h : build kind shapes = .ok ws) :
    Weight.Listed ws := by
  rw [build] at h
  obtain ⟨shape, -, h⟩ := bind_eq_ok.mp h
  obtain ⟨channels, -, h⟩ := bind_eq_ok.mp h
  obtain ⟨gamma, hgamma, h⟩ := bind_eq_ok.mp h
  obtain ⟨beta, hbeta, h⟩ := bind_eq_ok.mp h
  obtain rfl := Except.ok.inj h
  simp only [Weight.Listed, List.map_cons, List.map_nil, (constantWeight_eq_ok hgamma).1,
    (constantWeight_eq_ok hbeta).1]
  decide

theorem Attention.build_listed (h : (build params shapes).run g = (.ok ws, g')) :
    Weight.Listed ws := by
  have hrun := h
  rw [build] at hrun
  obtain ⟨size, _, hsize, hrun⟩ := run_bind_eq_ok.mp hrun
  obtain ⟨inputs, _, hinputs, -⟩ := run_bind_eq_ok.mp hrun
  have hsize := (run_lift_eq_ok.mp hsize).1
  have hinputs := (run_lift_eq_ok.mp hinputs).1
  obtain ⟨q, k, v, rfl⟩ : ∃ q k v, inputs = [q, k, v] := by
    rcases shapes with _ | ⟨q, _ | ⟨k, _ | ⟨v, rest⟩⟩⟩
    · cases hinputs
    · exact ⟨q, q, q, (Except.ok.inj hinputs).symm⟩
    · exact ⟨q, k, k, (Except.ok.inj hinputs).symm⟩
    · exact ⟨q, k, v, (Except.ok.inj hinputs).symm⟩
  obtain ⟨_, _, _, _, _, _, _, _, -, hnames, -⟩ := build_eq_ok hsize hinputs h
  rw [Weight.Listed, hnames]
  decide

/-- Every kernel builds weights under names that the weights of one layer can have. -/
theorem Kernel.build_listed {k : Kernel} (h : (k.build params shapes).run g = (.ok ws, g')) :
    Weight.Listed ws := by
  cases k with
  | dense => exact Dense.build_listed h
  | convolution => exact Convolution.build_listed h
  | recurrent => exact Recurrent.build_listed h
  | attention => exact Attention.build_listed h
  | batchNorm | layerNorm =>
      simp only [Kernel.build] at h
      exact Normalization.build_listed (run_lift_eq_ok.mp h).1
  | _ =>
      obtain ⟨rfl, -⟩ := run_pure_eq_ok.mp h
      exact List.mem_cons_self

end BlockNet
