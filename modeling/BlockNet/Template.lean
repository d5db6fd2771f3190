import BlockNet.Graph.Snapshot
/-! # Starter graphs -/

namespace BlockNet

/-- A starter graph that the editor can drop onto an empty canvas. -/
structure Template where
  id : Value
  name : Value
  description : Value
  category : Value
  difficulty : Value
  dataset : Value
  accuracy : Value
  nodes : List Value
  connections : List Value

namespace Template

/-- The categories of templates. -/
def categories : List String := ["vision", "nlp", "tabular", "custom"]

/-- The degrees of difficulty. -/
def difficulties : List String := ["beginner", "intermediate", "advanced"]

/-- Is a value one of some texts? -/
def among (v : Value) (texts : List String) : Bool := texts.any fun s => v.equal false (.text s)

/-- The template, refused if its category or difficulty is not a known one. -/
def checked (t : Template) : Outcome Template :=
  if !among t.category categories then .error (.templateCategory t.category)
  else if !among t.difficulty difficulties then .error (.templateDifficulty t.difficulty)
  else .ok t

/-- The names of what a template consists of. -/
def names : List String :=
  ["id", "name", "description", "category", "difficulty", "suggested_dataset",
    "expected_accuracy", "nodes", "connections"]

/-- The template that entries spell out; nothing may be missing and nothing else be there. -/
def ofEntries (es : Entries) : Outcome Template :=
  let known := es.all fun e => names.any fun name => e.1.sameKey name
  if !known || !names.all fun name => es.has name then mishap .wrongType
  else
    checked
      { id := es.getNull "id"
        name := es.getNull "name"
        description := es.getNull "description"
        category := es.getNull "category"
        difficulty := es.getNull "difficulty"
        dataset := es.getNull "suggested_dataset"
        accuracy := es.getNull "expected_accuracy"
        nodes := ((es.getNull "nodes").toList.toOption).getD []
        connections := ((es.getNull "connections").toList.toOption).getD [] }

/-- The template as an editor's document. -/
def toValue (t : Template) : Value := .dict [("nodes", .list t.nodes), ("edges", .list t.connections)]

/-- The graph of a template. -/
def snapshot (t : Template) : Outcome Snapshot := Snapshot.ofValue t.toValue

/-- A placed block in the editor's form. -/
def block (id blockType label : String) (x y : Int) (params : Entries) : Value :=
  .dict
    [("id", .text id), ("type", .text "mlBlock"), ("position", .dict [("x", .int x), ("y", .int y)]),
     ("data", .dict [("blockType", .text blockType), ("label", .text label),
       ("parameters", .dict params)])]

/-- Edges in the editor's form, numbered from one: source, source port, target, target port. -/
def edges (pairs : List (String × String × String × String)) : List Value :=
  pairs.mapIdx fun i (source, sourcePort, target, targetPort) =>
    .dict
      [("id", .text ("c" ++ toString (i + 1))), ("source", .text source), ("target", .text target),
       ("sourceHandle", .text sourcePort), ("targetHandle", .text targetPort)]

/-- A perceptron with two hidden layers for tabular data. -/
def simpleMlp : Template where
  id := .text "simple-mlp"
  name := .text "Simple MLP"
  description := .text "Basic multi-layer perceptron for tabular data"
  category := .text "tabular"
  difficulty := .text "beginner"
  dataset := .text "iris"
  accuracy := .text "95%+"
  nodes :=
    [block "data-1" "DataLoader" "DataLoader" 50 100
       [("batch_size", .int 32), ("shuffle", .bool true), ("dataset", .text "iris")],
     block "dense-1" "Dense" "Hidden Layer 1" 300 80
       [("units", .int 64), ("activation", .text "relu")],
     block "dropout-1" "Dropout" "Dropout" 550 80 [("rate", .real 0.3)],
     block "dense-2" "Dense" "Hidden Layer 2" 800 80
       [("units", .int 32), ("activation", .text "relu")],
     block "dense-3" "Dense" "Output Layer" 1050 80
       [("units", .int 3), ("activation", .text "softmax")],
     block "loss-1" "CrossEntropy" "CrossEntropy" 1300 120 []]
  connections := edges
    [("data-1", "data", "dense-1", "input"), ("dense-1", "output", "dropout-1", "input"),
     ("dropout-1", "output", "dense-2", "input"), ("dense-2", "output", "dense-3", "input"),
     ("dense-3", "output", "loss-1", "predictions"), ("data-1", "labels", "loss-1", "targets")]

/-- Two convolutions and two dense layers for handwritten digits. -/
def cnnMnist : Template where
  id := .text "cnn-mnist"
  name := .text "CNN for MNIST"
  description := .text "Convolutional neural network for handwritten digit recognition"
  category := .text "vision"
  difficulty := .text "intermediate"
  dataset := .text "mnist"
  accuracy := .text "98%+"
  nodes :=
    [block "data-1" "DataLoader" "MNIST Data" 50 150
       [("batch_size", .int 64), ("shuffle", .bool true), ("dataset", .text "mnist")],
     block "conv-1" "Conv2D" "Conv2D 1" 300 100
       [("filters", .int 32), ("kernel_size", .int 3), ("activation", .text "relu")],
     block "pool-1" "MaxPooling2D" "MaxPool 1" 550 100 [("pool_size", .int 2)],
     block "conv-2" "Conv2D" "Conv2D 2" 800 100
       [("filters", .int 64), ("kernel_size", .int 3), ("activation", .text "relu")],
     block "pool-2" "MaxPooling2D" "MaxPool 2" 1050 100 [("pool_size", .int 2)],
     block "flatten-1" "Flatten" "Flatten" 1300 100 [],
     block "dense-1" "Dense" "Dense" 1550 100
       [("units", .int 128), ("activation", .text "relu")],
     block "dropout-1" "Dropout" "Dropout" 1800 100 [("rate", .real 0.5)],
     block "output-1" "Dense" "Output" 2050 100
       [("units", .int 10), ("activation", .text "softmax")]]
  connections := edges
    [("data-1", "data", "conv-1", "input"), ("conv-1", "output", "pool-1", "input"),
     ("pool-1", "output", "conv-2", "input"), ("conv-2", "output", "pool-2", "input"),
     ("pool-2", "output", "flatten-1", "input"), ("flatten-1", "output", "dense-1", "input"),
     ("dense-1", "output", "dropout-1", "input"), ("dropout-1", "output", "output-1", "input")]

/-- Two convolutions with a residual connection around them. -/
def resnetBlock : Template where
  id := .text "resnet-block"
  name := .text "ResNet Block"
  description := .text "Residual connection block for deep networks"
  category := .text "vision"
  difficulty := .text "advanced"
  dataset := .text "cifar10"
  accuracy := .text "92%+"
  nodes :=
    [block "input-1" "DataLoader" "Input" 50 200
       [("batch_size", .int 32), ("dataset", .text "cifar10")],
     block "conv-1" "Conv2D" "Conv 1" 300 150
       [("filters", .int 64), ("kernel_size", .int 3), ("activation", .text "relu")],
     block "conv-2" "Conv2D" "Conv 2" 550 150
       [("filters", .int 64), ("kernel_size", .int 3), ("activation", .text "linear")],
     block "add-1" "Add" "Residual Add" 800 200 [],
     block "activation-1" "Activation" "ReLU" 1050 200 [("activation", .text "relu")]]
  connections := edges
    [("input-1", "data", "conv-1", "input"), ("conv-1", "output", "conv-2", "input"),
     ("conv-2", "output", "add-1", "input1"), ("input-1", "data", "add-1", "input2"),
     ("add-1", "output", "activation-1", "input")]

/-- Self-attention and a dense layer, each with a residual connection and a normalization. -/
def transformerEncoder : Template where
  id := .text "transformer-encoder"
  name := .text "Transformer Encoder"
  description := .text "Self-attention transformer encoder block"
  category := .text "nlp"
  difficulty := .text "advanced"
  dataset := .text "text"
  accuracy := .text "85%+"
  nodes :=
    [block "input-1" "DataLoader" "Sequence Input" 50 250
       [("batch_size", .int 16), ("sequence_length", .int 128), ("dataset", .text "text")],
     block "attention-1" "MultiHeadAttention" "Multi-Head Attention" 300 200
       [("heads", .int 8), ("dim", .int 512)],
     block "add-1" "Add" "Residual Add 1" 550 250 [],
     block "norm-1" "LayerNorm" "Layer Norm 1" 800 250 [],
     block "ffn-1" "Dense" "Feed Forward" 1050 250
       [("units", .int 2048), ("activation", .text "relu")],
     block "add-2" "Add" "Residual Add 2" 1300 250 [],
     block "norm-2" "LayerNorm" "Layer Norm 2" 1550 250 []]
  connections := edges
    [("input-1", "data", "attention-1", "query"), ("input-1", "data", "attention-1", "key"),
     ("input-1", "data", "attention-1", "value"), ("attention-1", "output", "add-1", "input1"),
     ("input-1", "data", "add-1", "input2"), ("add-1", "output", "norm-1", "input"),
     ("norm-1", "output", "ffn-1", "input"), ("ffn-1", "output", "add-2", "input1"),
     ("norm-1", "output", "add-2", "input2"), ("add-2", "output", "norm-2", "input")]

/-- All templates. -/
def all : List Template := [simpleMlp, cnnMnist, resnetBlock, transformerEncoder]

/-- The templates of a category, all of them for null. -/
def inCategory (category : Value) : List Template :=
  match category with
  | .null => all
  | category => all.filter fun t => t.category.equal false category

/-- The template of an id. -/
def get (id : Value) : Outcome Template :=
  match all.find? fun t => t.id.equal false id with
  | some t => .ok t
  | none => .error (.unknownTemplate id)

end Template

end BlockNet
