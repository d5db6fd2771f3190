import BlockNet.Catalog.Basic
/-! # The stock block types -/

namespace BlockNet.Stock

/-- A batch of feature vectors of unknown width. -/
def features : TensorShape := ⟨[.batch, .unknown], .float32⟩

/-- A batch of images of unknown height, width and channel count. -/
def images : TensorShape := ⟨[.batch, .unknown, .unknown, .unknown], .float32⟩

/-- A batch of sequences of unknown length and width. -/
def sequences : TensorShape := ⟨[.batch, .unknown, .unknown], .float32⟩

/-- A vector of unknown length. -/
def vector : TensorShape := ⟨[.unknown], .float32⟩

/-- The activation functions. -/
def activations : List String := ["relu", "sigmoid", "tanh", "softmax", "linear"]

/-- The choice of an activation function. -/
def activation : ParamSpec := .choice "activation" "relu" activations

/-- The parameters of a bias. -/
def biasParams : List ParamSpec :=
  [ParamSpec.about (.boolean "use_bias" true) "Add a learned bias",
   ParamSpec.about (.real "bias_init" 0.0 none none) "Initial bias value"]

/-- A layer with one input and one output. -/
def unary (blockType : String) (input output : TensorShape) (inputText outputText : String)
    (parameters : List ParamSpec) (category description : String) : BlockDefinition where
  blockType
  inputs := [⟨"input", input, inputText⟩]
  outputs := [⟨"output", output, outputText⟩]
  parameters
  category
  description
  computational := true

/-- A layer with two inputs of features. -/
def binary (blockType outputText : String) (parameters : List ParamSpec)
    (description : String) : BlockDefinition where
  blockType
  inputs := [⟨"input1", features, "First input tensor"⟩,
    ⟨"input2", features, "Second input tensor"⟩]
  outputs := [⟨"output", features, outputText⟩]
  parameters
  category := "Advanced"
  description
  computational := true

/-- A loss function. -/
def loss (blockType description : String) (target : DType) : BlockDefinition where
  blockType
  inputs := [⟨"predictions", features, "Model predictions"⟩,
    ⟨"targets", ⟨[.batch, .unknown], target⟩, "True targets"⟩]
  outputs := [⟨"loss", ⟨[], .float32⟩, description⟩]
  parameters := []
  category := "Loss Functions"
  description
  computational := false

/-- An optimizer. -/
def optimizer (blockType description : String) (parameters : List ParamSpec) :
    BlockDefinition where
  blockType
  inputs := [⟨"gradients", vector, "Model gradients"⟩]
  outputs := [⟨"updates", vector, "Parameter updates"⟩]
  parameters
  category := "Optimizers"
  description
  computational := false

/-- The source of training data. -/
def dataLoader : BlockDefinition where
  blockType := "DataLoader"
  inputs := []
  outputs := [⟨"data", features, "Training data batches"⟩,
    ⟨"labels", ⟨[.batch, .unknown], .int32⟩, "Training labels"⟩]
  parameters := [.integer "batch_size" 32 (some 1) none, .boolean "shuffle" true,
    .choice "dataset" "mnist" ["mnist", "cifar10", "iris", "text"]]
  category := "Data"
  description := "Load training data"
  computational := false

/-- Attention of a query over keys and values. -/
def attention : BlockDefinition where
  blockType := "MultiHeadAttention"
  inputs := [⟨"query", sequences, "Query tensor"⟩, ⟨"key", sequences, "Key tensor"⟩,
    ⟨"value", sequences, "Value tensor"⟩]
  outputs := [⟨"output", sequences, "Attention output"⟩]
  parameters := [.integer "heads" 8 (some 1) none, .integer "dim" 512 (some 1) none,
    .real "dropout" 0.1 (some 0.0) (some 0.99)]
  category := "Advanced"
  description := "Multi-head self-attention"
  computational := true

/-- All stock block types, in the order of the library panel. -/
def definitions : List BlockDefinition :=
  [dataLoader,
   unary "Dense" features features "Input features" "Dense layer output"
     (.integer "units" 64 (some 1) none :: activation :: biasParams)
     "Core Layers" "Fully connected layer",
   unary "Conv2D" images images "4D image tensor" "Convolved feature maps"
     (.integer "filters" 32 (some 1) none :: .integer "kernel_size" 3 (some 1) none
       :: activation :: biasParams)
     "Core Layers" "2D convolutional layer",
   unary "MaxPooling2D" images images "4D feature maps" "Pooled feature maps"
     [.integer "pool_size" 2 (some 1) none] "Core Layers" "Max pooling layer",
   unary "Flatten" features features "Multi-dimensional input" "Flattened output" []
     "Core Layers" "Flatten multi-dimensional input",
   unary "Dropout" features features "Input tensor" "Dropout applied"
     [.real "rate" 0.2 (some 0.0) (some 0.99)] "Core Layers" "Regularization layer",
   unary "LSTM" sequences features "Sequential input" "LSTM output"
     [.integer "units" 128 (some 1) none, .boolean "return_sequences" false]
     "Core Layers" "LSTM recurrent layer",
   binary "Add" "Element-wise sum" [] "Element-wise addition (residual)",
   binary "Concatenate" "Concatenated tensor" [.integer "axis" (-1) none none]
     "Concatenate tensors",
   unary "Activation" features features "Input tensor" "Activated tensor" [activation]
     "Activation" "Activation function",
   unary "BatchNorm" features features "Input tensor" "Normalized tensor"
     [.real "momentum" 0.99 (some 0.0) (some 1.0), .real "epsilon" 1e-3 (some 0.0) none]
     "Normalization" "Batch normalization",
   unary "LayerNorm" features features "Input tensor" "Layer normalized tensor"
     [.real "epsilon" 1e-6 (some 0.0) none] "Normalization" "Layer normalization",
   attention,
   loss "CrossEntropy" "Cross-entropy loss" .int32,
   loss "MSE" "Mean squared error" .float32,
   optimizer "SGD" "Stochastic gradient descent"
     [.real "learning_rate" 0.01 (some 0.0) none, .real "momentum" 0.0 (some 0.0) none],
   optimizer "Adam" "Adam optimizer"
     [.real "learning_rate" 0.001 (some 0.0) none, .real "beta1" 0.9 (some 0.0) (some 1.0),
      .real "beta2" 0.999 (some 0.0) (some 1.0), .real "epsilon" 1e-7 (some 0.0) none]]

/-- The stock catalog. -/
def catalog : Catalog := ⟨definitions, by decide⟩

end BlockNet.Stock
